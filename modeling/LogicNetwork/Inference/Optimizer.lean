/-
  Optimizer — searching a state of least cost.

  A search makes a number of tries. Each starts from an assignment and walks, weighing a hard
  constraint above all soft ones together, and keeps the cheapest state it comes through. The
  cost is followed incrementally while walking, and a state that looks cheaper is charged in
  full before it counts. A try ends early when its active cost has reached the target, when
  the run is cancelled, or when no move is possible; the run ends when the best state has
  reached the target.
-/
import LogicNetwork.Inference.Stats
import LogicNetwork.Search.Moves
import LogicNetwork.Settings.Solvers

namespace LogicNetwork

variable {α : Type} [WeightArithmetic α] {g : SearchGraph α} {σ : Type} [RandomSource σ]

/-- An assignment and what it is charged for. -/
structure Candidate (atoms : Nat) (α : Type) where
  cost : Cost α
  truth : Vector Bool atoms

/-- Whether a cost is good enough: no hard constraint violated, and at most the target. -/
def Cost.reaches (c : Cost α) (target : α) : Bool :=
  c.hard == 0 && decide (c.soft ≤ target)

/-- A try in progress. -/
structure Try (g : SearchGraph α) (σ : Type) where
  state : SearchState g
  random : σ
  best : Candidate g.atoms α
  flips : Nat
  cancelled : Bool

namespace Try

/-- Keeps the current assignment if it is better than the best so far. -/
def keepBest (t : Try g σ) : Try g σ :=
  if t.state.activeCost.isBetterThan t.best.cost then
    let exact := t.state.fullCost
    if exact.isBetterThan t.best.cost then { t with best := ⟨exact, t.state.truth⟩ } else t
  else t

/-- Moves of a try, `done` of them behind it, until it ends or the budget is spent. -/
def moves (greedyChance : Float) (target : α) (stop : Nat → Bool) :
    Nat → Nat → Try g σ → Try g σ
  | 0, _, t => t
  | left + 1, done, t =>
    if t.state.activeCost.reaches target then t
    else if stop done then { t with cancelled := true }
    else
      match t.state.walkStep greedyChance t.random with
      | (false, state, random) => { t with state, random }
      | (true, state, random) =>
        moves greedyChance target stop left (done + 1)
          (keepBest { t with state, random, flips := t.flips + 1 })

/-- Begins a try with an assignment; all constraints are active. -/
def begin (g : SearchGraph α) (randomStart : Bool) (random : σ) : Try g σ :=
  let (truth, random) := SearchState.initialTruth g.atoms randomStart random
  let state := (SearchState.start g .weighted truth).setActiveWhere fun _ => true
  ⟨state, random, ⟨state.fullCost, truth⟩, 0, false⟩

end Try

/-! ### All tries -/

/-- What the tries so far have found. -/
structure Tries (atoms : Nat) (α : Type) where
  best : Option (Candidate atoms α)
  tries : Nat
  flips : Nat
  cancelled : Bool

namespace Tries

/-- The better of the best candidate so far and another; the earlier one if they are equal. -/
def better {atoms : Nat} (best : Option (Candidate atoms α)) (other : Candidate atoms α) :
    Candidate atoms α :=
  match best with
  | none => other
  | some c => if other.cost.isBetterThan c.cost then other else c

/-- Makes tries until the target is reached, the run is cancelled or none are left. -/
def run (g : SearchGraph α) (settings : OptimizerSettings) (target : α)
    (stop : Nat → Nat → Bool) : Nat → Tries g.atoms α → σ → Tries g.atoms α
  | 0, found, _ => found
  | left + 1, found, random =>
    let t := (Try.begin g settings.randomStart random).moves settings.greedyChance target
      (stop found.tries) settings.maxFlips 0
    let best := better found.best t.best
    let found : Tries g.atoms α :=
      ⟨some best, found.tries + 1, found.flips + t.flips, t.cancelled⟩
    if best.cost.reaches target || t.cancelled then found
    else run g settings target stop left found t.random

end Tries

/-- Checks the parameters of a search. -/
def checkOptimizer (settings : OptimizerSettings) : Except InferenceError Unit :=
  settings.validate.mapError InferenceError.invalidParameter

/-- Searches a state of least cost and gives it to the atoms of the network. `stop` says before
which move of which try the run is cancelled. -/
def Network.optimize (n : Network α) (settings : OptimizerSettings) (target : α)
    (stop : Nat → Nat → Bool) (generator : UInt64 → σ) :
    Except InferenceError (Network α × InferenceStats α) := do
  checkOptimizer settings
  let g := SearchGraph.ofNetwork n
  let found := Tries.run g settings target stop settings.maxTries ⟨none, 0, 0, false⟩
    (generator (UInt64.ofNat settings.seed))
  let stats : InferenceStats α :=
    { InferenceStats.zero with
      chains := found.tries
      flips := found.flips
      cancelled := found.cancelled }
  match found.best with
  | none => .ok (n, stats)
  | some c => .ok (n.setStates c.truth.toArray, { stats with bestCost := c.cost })

end LogicNetwork
