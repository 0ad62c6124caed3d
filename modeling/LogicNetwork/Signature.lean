/-
  Signature — a symbol together with its number of arguments.

  Predicates and functions are told apart by symbol and arity, so the same symbol may be
  declared once for each arity.
-/

namespace LogicNetwork

/-- A predicate or function symbol and its arity. -/
structure Signature where
  symbol : String
  arity : Nat
deriving DecidableEq, Hashable, Repr, Inhabited

namespace Signature

/-- The symbol, a slash and the arity. -/
def text (s : Signature) : String :=
  s.symbol ++ "/" ++ toString s.arity

/-- Signatures are listed by symbol, then by arity. -/
def before (a b : Signature) : Bool :=
  decide (a.symbol < b.symbol) || (a.symbol == b.symbol && decide (a.arity < b.arity))

end Signature

end LogicNetwork
