/-
  Session — a problem under settings.

  A session holds a problem whose numbering and evidence have been built, the settings, and
  the builtins. Grounding and inference can be run on it any number of times; each inference
  grounds afresh.
-/
import LogicNetwork.Inference.Optimizer
import LogicNetwork.Inference.Sampler
import LogicNetwork.Network.Ground
import LogicNetwork.Problem.Basic
import LogicNetwork.Random.ChaCha
import LogicNetwork.Scoring
import LogicNetwork.Settings.Basic

namespace LogicNetwork

/-- A problem that is ready for grounding. -/
structure Session where
  settings : Settings
  problem : Problem
  layout : Layout
  evidence : Evidence
  builtins : Builtins

namespace Session

/-! ### Opening -/

/-- Checks the settings and then builds the numbering and the evidence of a problem. -/
def ofProblem (problem : Problem) (settings : Settings) : Except Failure Session := do
  settings.validate.mapError fun cause => Failure.settings (.invalid cause)
  let layout ← problem.layout
  let evidence ← problem.evidence layout
  .ok { settings, problem, layout, evidence, builtins := Builtins.standard }

/-- The session with other builtins. -/
def withBuiltins (s : Session) (builtins : Builtins) : Session :=
  { s with builtins }

/-- The settings and the size of the problem on one line. -/
def description (s : Session) : String :=
  labelledRecord "Engine" [
    ("config", s.settings.description),
    ("atoms", toString s.layout.atomCount),
    ("clauses", toString s.problem.clauses.length)]

/-! ### Running -/

/-- The network of the problem's clauses. -/
def ground (s : Session) : Except Abort (Network Float) :=
  Network.ground s.settings.grounding.chunkSize s.builtins s.evidence s.problem.clauses
    s.problem.query

/-- Grounds and estimates marginals. `stop` cancels a chain before a round. -/
def marginals (s : Session) (stop : Nat → Nat → Bool) :
    Except Abort (Network Float × InferenceStats Float) := do
  let n ← s.ground
  (n.sample s.settings.sampler stop ChaCha.ofSeed).mapError Abort.ofInference

/-- Grounds and searches a state of least cost. `stop` cancels a try before a move. -/
def mapState (s : Session) (stop : Nat → Nat → Bool) :
    Except Abort (Network Float × InferenceStats Float) := do
  let n ← s.ground
  (n.optimize s.settings.optimizer s.settings.optimizer.targetCost stop ChaCha.ofSeed).mapError
    Abort.ofInference

end Session

/-! ### Scoring -/

/-- Scores a network against the evidence of an annotated problem. -/
def Network.evaluateAgainst (n : Network Float) (reference : Problem) (threshold : Float) :
    Except Failure Evaluation := do
  let layout ← reference.layout
  let truth ← reference.evidence layout
  n.evaluate truth threshold

end LogicNetwork
