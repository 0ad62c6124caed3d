/-
  Stats — what an inference run reports besides its results.
-/
import LogicNetwork.Network.Constraint

namespace LogicNetwork

/-- The counters of an inference run. -/
structure InferenceStats (α : Type) where
  /-- Samples over all chains. -/
  samples : Nat
  /-- Chains, or tries of a search. -/
  chains : Nat
  /-- Atoms flipped by moves. -/
  flips : Nat
  /-- Rounds that ran out of moves before the active constraints were satisfied. -/
  nonConverged : Nat
  /-- Rounds in which the active constraints forced a conflict. -/
  conflicts : Nat
  /-- The cost of the best state seen. -/
  bestCost : Cost α
  cancelled : Bool
deriving Repr

/-- The counters before a run. -/
def InferenceStats.zero {α : Type} [WeightArithmetic α] : InferenceStats α :=
  ⟨0, 0, 0, 0, 0, .zero, false⟩

end LogicNetwork
