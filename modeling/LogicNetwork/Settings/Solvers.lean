/-
  Solvers — the parameters of sampling and of search.

  Every parameter has a default and a range. Validation goes through the fields in order and
  reports the first one out of its range; `NaN` is in no range.
-/
import LogicNetwork.Failure
import LogicNetwork.Number.Style

namespace LogicNetwork

/-! ### Ranges -/

/-- Checks a condition on a parameter. -/
def checkParameter (name value : String) (expected : Requirement) (holds : Bool) :
    Except InvalidParameter Unit :=
  if holds then .ok () else .error ⟨name, value, expected⟩

/-- Checks that a count is not zero. -/
def checkPositive (name : String) (n : Nat) : Except InvalidParameter Unit :=
  checkParameter name (toString n) .positiveInteger (decide (0 < n))

/-- Checks that a number is a probability. -/
def checkProbability (name : String) (x : Float) : Except InvalidParameter Unit :=
  checkParameter name (FloatStyle.plain.write x) .probability (decide (0 ≤ x) && decide (x ≤ 1))

/-! ### Sampling -/

/-- The parameters of a sampler. -/
structure SamplerSettings where
  /-- Samples of each chain. -/
  samples : Nat
  /-- Independent chains. -/
  chains : Nat
  /-- Moves that the search for one sample may make. -/
  maxFlips : Nat
  /-- The probability that a walk step is greedy. -/
  greedyChance : Float
  /-- The probability of an annealing step during the search. -/
  annealChance : Float
  temperature : Float
  /-- Whether annealing waits until the active constraints are satisfied, and then cools. -/
  lateAnnealing : Bool
  /-- Annealing steps after the search; one for each atom if absent. -/
  lateSteps : Option Nat
  /-- The factor of the temperature from one late step to the next. -/
  cooling : Float
  /-- Whether forced values are pinned before the search. -/
  propagation : Bool
  /-- Whether chains start at random and not with every atom false. -/
  randomStart : Bool
  seed : Nat
  /-- Workers; results do not depend on it. -/
  threads : Option Nat
deriving BEq, Repr

namespace SamplerSettings

/-- The parameters of a sampler that is not told otherwise. -/
def default : SamplerSettings where
  samples := 1000
  chains := 1
  maxFlips := 100000
  greedyChance := 0.5
  annealChance := 0.1
  temperature := 0.1
  lateAnnealing := true
  lateSteps := none
  cooling := 0.95
  propagation := true
  randomStart := true
  seed := 0
  threads := none

instance : Inhabited SamplerSettings := ⟨default⟩

/-- Checks the ranges of all parameters. -/
def validate (s : SamplerSettings) : Except InvalidParameter Unit := do
  checkPositive "samples" s.samples
  checkPositive "chains" s.chains
  checkPositive "max_flips" s.maxFlips
  checkProbability "probability_best" s.greedyChance
  checkProbability "p_sa" s.annealChance
  checkParameter "temperature" (FloatStyle.plain.write s.temperature) .finitePositive
    (decide (0 < s.temperature) && s.temperature.isFinite)
  checkParameter "cooling" (FloatStyle.plain.write s.cooling) .factor
    (decide (0 < s.cooling) && decide (s.cooling ≤ 1))
  match s.threads with
  | some n => checkPositive "threads" n
  | none => .ok ()

end SamplerSettings

/-! ### Optimisation -/

/-- The parameters of a search for a best state. -/
structure OptimizerSettings where
  /-- Restarts. -/
  maxTries : Nat
  /-- Moves of each try. -/
  maxFlips : Nat
  /-- The probability that a walk step is greedy. -/
  greedyChance : Float
  /-- The soft cost that is good enough once no hard constraint is violated. -/
  targetCost : Float
  /-- Whether tries start at random and not with every atom false. -/
  randomStart : Bool
  seed : Nat
deriving BEq, Repr

namespace OptimizerSettings

/-- The parameters of a search that is not told otherwise. -/
def default : OptimizerSettings where
  maxTries := 10
  maxFlips := 100000
  greedyChance := 0.5
  targetCost := 0.001
  randomStart := true
  seed := 0

instance : Inhabited OptimizerSettings := ⟨default⟩

/-- Checks the ranges of all parameters. -/
def validate (s : OptimizerSettings) : Except InvalidParameter Unit := do
  checkPositive "max_tries" s.maxTries
  checkPositive "max_flips" s.maxFlips
  checkProbability "probability_best" s.greedyChance
  checkParameter "target_cost" (FloatStyle.plain.write s.targetCost) .finiteNonnegative
    (decide (0 ≤ s.targetCost) && s.targetCost.isFinite)

end OptimizerSettings

end LogicNetwork
