/-
  Source — random decisions.

  Search and sampling ask for two kinds of decision: whether an event of a given probability
  happens, and which of a positive number of things is taken. What answers is a parameter, so
  that statements about a search can speak of every course it may take.
-/

namespace LogicNetwork

/-- A source of random decisions; each hands on the state that the next one is drawn from. -/
class RandomSource (σ : Type) where
  /-- Whether an event of a probability happens. -/
  happens : Float → σ → Bool × σ
  /-- One of a positive number of things. -/
  below : (n : Nat) → 0 < n → σ → Fin n × σ

/-- A condition, and an event that is only decided where the condition holds. -/
def RandomSource.both {σ : Type} [RandomSource σ] (condition : Bool) (chance : Float) (g : σ) :
    Bool × σ :=
  if condition then happens chance g else (false, g)

end LogicNetwork
