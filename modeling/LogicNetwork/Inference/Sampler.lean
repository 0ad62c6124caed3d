/-
  Sampler — estimating how likely atoms are, by slice sampling.

  Each round keeps the constraints that are in their preferred state: hard ones always, soft
  ones with a probability that grows with their weight. It then draws a new state in which all
  of these are still in their preferred state, by a local search with annealing. Every round
  yields one sample. Chains are independent; chain `k` draws from the generator of seed
  `seed + k`, and their results are added up in order.

  The generator and the cancellation of the run are parameters.
-/
import LogicNetwork.Inference.Stats
import LogicNetwork.Search.Moves
import LogicNetwork.Search.Propagate
import LogicNetwork.Settings.Solvers

namespace LogicNetwork

variable {α : Type} [WeightArithmetic α] {g : SearchGraph α} {σ : Type} [RandomSource σ]

/-! ### Walks -/

/-- A search in progress: its state, what it draws from, and the flips made. -/
structure Walk (g : SearchGraph α) (σ : Type) where
  state : SearchState g
  random : σ
  flips : Nat

namespace Walk

/-- Takes a walk step. -/
def walk (w : Walk g σ) (greedyChance : Float) : Walk g σ :=
  let (moved, state, random) := w.state.walkStep greedyChance w.random
  ⟨state, random, if moved then w.flips + 1 else w.flips⟩

/-- Takes an annealing step. -/
def anneal (w : Walk g σ) (temperature : Float) : Walk g σ :=
  let (moved, state, random) := w.state.annealStep temperature w.random
  ⟨state, random, if moved then w.flips + 1 else w.flips⟩

/-- Whether every active constraint is in its preferred state. -/
def isGood (w : Walk g σ) : Bool :=
  w.state.bad.isEmpty

/-- Takes walk steps while a constraint is bad and the budget lasts; gives what is left of it. -/
def repair (greedyChance : Float) : Nat → Walk g σ → Nat × Walk g σ
  | 0, w => (0, w)
  | budget + 1, w =>
    if w.isGood then (budget + 1, w) else repair greedyChance budget (w.walk greedyChance)

/-- Takes walk steps, and annealing steps among them unless annealing comes late. -/
def search (settings : SamplerSettings) : Nat → Walk g σ → Nat × Walk g σ
  | 0, w => (0, w)
  | budget + 1, w =>
    if w.isGood then (budget + 1, w)
    else
      let (annealNow, random) :=
        RandomSource.both (!settings.lateAnnealing) settings.annealChance w.random
      let w := { w with random }
      search settings budget
        (if annealNow then w.anneal settings.temperature else w.walk settings.greedyChance)

/-- The next temperature, which stays above the smallest normal double. -/
def cool (settings : SamplerSettings) (temperature : Float) : Float :=
  if settings.lateAnnealing then
    let cooled := temperature * settings.cooling
    if cooled < 2.2250738585072014e-308 then 2.2250738585072014e-308 else cooled
  else temperature

/-- Takes annealing steps at falling temperature. -/
def annealFor (settings : SamplerSettings) : Nat → Float → Walk g σ → Walk g σ
  | 0, _, w => w
  | steps + 1, temperature, w =>
    annealFor settings steps (cool settings temperature) (w.anneal temperature)

/-- Draws a state that keeps every active constraint in its preferred state. Says whether that
succeeded within the budget. -/
def drawSample (settings : SamplerSettings) (w : Walk g σ) : Bool × Walk g σ :=
  let (budget, w) := w.search settings settings.maxFlips
  if !w.isGood then (false, w)
  else
    let w := w.annealFor settings (settings.lateSteps.getD g.atoms) settings.temperature
    let (_, w) := w.repair settings.greedyChance budget
    (w.isGood, w)

end Walk

/-! ### Chains -/

/-- What a chain has found so far. -/
structure Chain (atoms : Nat) (α : Type) where
  /-- For each atom, in how many samples it was true. -/
  counts : Vector Nat atoms
  samples : Nat
  flips : Nat
  nonConverged : Nat
  conflicts : Nat
  best : Vector Bool atoms
  bestCost : Cost α
  cancelled : Bool

namespace Chain

/-- Takes in the state that a round ended with. -/
def record (chain : Chain g.atoms α) (converged : Bool) (s : SearchState g) : Chain g.atoms α :=
  let cost := s.fullCost
  let better := cost.isBetterThan chain.bestCost
  { chain with
    counts := Vector.zipWith (fun count value => if value then count + 1 else count)
      chain.counts s.truth
    samples := chain.samples + 1
    nonConverged := if converged then chain.nonConverged else chain.nonConverged + 1
    best := if better then s.truth else chain.best
    bestCost := if better then cost else chain.bestCost }

end Chain

namespace Walk

/-- Whether a constraint takes part in a round: hard ones do, soft ones that are in their
preferred state with the probability of their weight. -/
def chooseActive (c : GraphConstraint α g.atoms) (good : Bool) (random : σ) : Bool × σ :=
  match c.weight with
  | .hard _ => (true, random)
  | .soft x => RandomSource.both good (WeightArithmetic.keepChance x) random

/-- Begins a round: chooses the active constraints, and pins the values they force. Says whether
forcing met a conflict; then nothing is pinned. -/
def beginRound (settings : SamplerSettings) (w : Walk g σ) : Bool × Walk g σ :=
  let (state, random) := w.state.unpin.setActive (fun _ => chooseActive) w.random
  if settings.propagation then
    match state.propagate with
    | some forced => (false, { w with state := state.pinForced forced, random })
    | none => (true, { w with state, random })
  else (false, { w with state, random })

/-- One round of a chain. -/
def round (settings : SamplerSettings) (w : Walk g σ) (chain : Chain g.atoms α) :
    Walk g σ × Chain g.atoms α :=
  let (conflict, w) := w.beginRound settings
  let (converged, w) := w.drawSample settings
  let chain := if conflict then { chain with conflicts := chain.conflicts + 1 } else chain
  (w, chain.record converged w.state)

/-- Rounds of a chain, `done` of them behind it, until it has all its samples or is stopped. -/
def rounds (settings : SamplerSettings) (stop : Nat → Bool) :
    Nat → Nat → Walk g σ → Chain g.atoms α → Walk g σ × Chain g.atoms α
  | 0, _, w, chain => (w, chain)
  | left + 1, done, w, chain =>
    if stop done then (w, { chain with cancelled := true })
    else
      let (w, chain) := w.round settings chain
      rounds settings stop left (done + 1) w chain

/-- The start of a chain: an assignment, improved until it satisfies the hard constraints or the
budget is spent. -/
def begin (g : SearchGraph α) (settings : SamplerSettings) (random : σ) : Walk g σ :=
  let (truth, random) := SearchState.initialTruth g.atoms settings.randomStart random
  let state := (SearchState.start g .count truth).setActiveWhere GroundWeight.isHard
  (repair settings.greedyChance settings.maxFlips ⟨state, random, 0⟩).2

end Walk

/-- Runs a chain; `stop` says before which of its rounds it is cancelled. -/
def Chain.run (g : SearchGraph α) (settings : SamplerSettings) (stop : Nat → Bool) (random : σ) :
    Chain g.atoms α :=
  let w := Walk.begin g settings random
  let chain : Chain g.atoms α := {
    counts := Vector.replicate g.atoms 0
    samples := 0
    flips := 0
    nonConverged := 0
    conflicts := 0
    best := w.state.truth
    bestCost := w.state.fullCost
    cancelled := false }
  let (w, chain) := w.rounds settings stop settings.samples 0 chain
  { chain with flips := w.flips }

/-! ### All chains -/

/-- Adds up the counters of chains; the best state is that of the first chain of least cost. -/
def mergeChains {atoms : Nat} (first : Chain atoms α) (rest : List (Chain atoms α)) :
    Chain atoms α :=
  rest.foldl
    (fun total chain =>
      let better := chain.bestCost.isBetterThan total.bestCost
      { counts := Vector.zipWith (· + ·) total.counts chain.counts
        samples := total.samples + chain.samples
        flips := total.flips + chain.flips
        nonConverged := total.nonConverged + chain.nonConverged
        conflicts := total.conflicts + chain.conflicts
        best := if better then chain.best else total.best
        bestCost := if better then chain.bestCost else total.bestCost
        cancelled := total.cancelled || chain.cancelled })
    first

/-- The chains of a run. -/
def runChains (g : SearchGraph α) (settings : SamplerSettings) (stop : Nat → Nat → Bool)
    (generator : UInt64 → σ) : List (Chain g.atoms α) :=
  (List.range settings.chains).map fun k =>
    Chain.run g settings (stop k) (generator (UInt64.ofNat settings.seed + UInt64.ofNat k))

/-- Checks the parameters of a sampler. -/
def checkSampler (settings : SamplerSettings) : Except InferenceError Unit :=
  settings.validate.mapError InferenceError.invalidParameter

/-- Checks that every constraint weight is a number. -/
def checkWeights (n : Network α) : Except InferenceError Unit :=
  match n.constraints.find? fun c => c.weight.isUndefined with
  | some c => .error (.invalidParameter ⟨"constraint weight", c.weight.text, .numberOrHard⟩)
  | none => .ok ()

/-- Estimates marginals: records the samples of all chains in the network, and the best state
that any of them saw. `stop` says before which round of which chain the run is cancelled. -/
def Network.sample (n : Network α) (settings : SamplerSettings) (stop : Nat → Nat → Bool)
    (generator : UInt64 → σ) : Except InferenceError (Network α × InferenceStats α) := do
  checkSampler settings
  checkWeights n
  let g := SearchGraph.ofNetwork n
  match runChains g settings stop generator with
  | [] => .ok (n.recordSamples (Vector.replicate g.atoms 0).toArray 0, .zero)
  | first :: rest =>
    let total := mergeChains first rest
    let sampled := (n.recordSamples total.counts.toArray total.samples).setStates total.best.toArray
    .ok (sampled, {
      samples := total.samples
      chains := settings.chains
      flips := total.flips
      nonConverged := total.nonConverged
      conflicts := total.conflicts
      bestCost := total.bestCost
      cancelled := total.cancelled })

end LogicNetwork
