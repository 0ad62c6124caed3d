/-
  Basic — problems: a theory with its evidence and its query.
-/
import LogicNetwork.Clause
import LogicNetwork.Evidence.Store

namespace LogicNetwork

/-- A theory, what is known about it, and what is asked. -/
structure Problem where
  domains : Domains
  schema : Schema
  clauses : List (Clause Float)
  facts : List Fact
  values : List FunctionValue
  /-- Signatures without a closed world that are not asked about. -/
  openWorld : List Signature
  query : List Signature
deriving BEq

namespace Problem

/-- The numbering of the ground atoms. -/
def layout (p : Problem) : Except Failure Layout :=
  Layout.build p.schema p.domains

/-- The evidence over the layout of the problem. -/
def evidence (p : Problem) (l : Layout) : Except Failure Evidence :=
  Evidence.build l ⟨p.query, p.openWorld, []⟩ p.facts p.values

end Problem

end LogicNetwork
