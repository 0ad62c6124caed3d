/-
  Writer — problems as documents.

  All fields of a problem are written, in a fixed order; only the restrictions of a clause and
  the annotation of a variable are left out where there are none.
-/
import LogicNetwork.Document.JsonWriter
import LogicNetwork.Problem.Basic

namespace LogicNetwork

/-- A list of strings. -/
def textList (items : List String) : Value :=
  .list (items.map .text)

/-- A signature. -/
def Signature.toValue (s : Signature) : Value :=
  .table [("symbol", .text s.symbol), ("arity", .integer s.arity)]

/-- A predicate. -/
def PredicateDecl.toValue (p : PredicateDecl) : Value :=
  .table [("symbol", .text p.symbol), ("args", textList p.domains)]

/-- A function. -/
def FunctionDecl.toValue (f : FunctionDecl) : Value :=
  .table [("symbol", .text f.symbol), ("returns", .text f.result), ("args", textList f.domains)]

/-- A variable. -/
def Variable.toValue (v : Variable) : Value :=
  .table (("name", .text v.name) :: match v.domain with
    | some d => [("domain", .text d)]
    | none => [])

namespace Term

mutual

/-- A term. -/
def toValue : Term → Value
  | const c => .table [("Constant", .text c)]
  | var v => .table [("Variable", v.toValue)]
  | app f as => .table [("Function", .table [("symbol", .text f), ("args", .list (toValues as))])]

/-- A list of terms. -/
def toValues : List Term → List Value
  | [] => []
  | a :: as => toValue a :: toValues as

end

end Term

/-- A literal. -/
def Literal.toValue (l : Literal) : Value :=
  .table [("positive", .bool l.positive),
    ("atom", .table [
      ("predicate", .text l.predicate),
      ("args", .list (Term.toValues l.arguments))])]

/-- A restriction. -/
def Restriction.toValue (r : Restriction) : Value :=
  .table [(if r.equal then "Equal" else "NotEqual", .list [r.left.toValue, r.right.toValue])]

/-- The weight of a clause: a number, or a word for hard ones. -/
def Weight.toValue : Weight Float → Value
  | hard => .text "hard"
  | soft w => .float w

/-- A clause. -/
def Clause.toValue (c : Clause Float) : Value :=
  .table ([("index", .integer c.index), ("weight", c.weight.toValue),
    ("literals", .list (c.literals.map Literal.toValue))] ++
    if c.restrictions.isEmpty then []
    else [("constraints", .list (c.restrictions.map Restriction.toValue))])

/-- An assertion. -/
def Fact.toValue (f : Fact) : Value :=
  .table [("predicate", .text f.predicate), ("args", textList f.arguments),
    ("state", .text f.state.text)]

/-- The value of a function. -/
def FunctionValue.toValue (f : FunctionValue) : Value :=
  .table [("function", .text f.function), ("value", .text f.value),
    ("args", textList f.arguments)]

/-- A problem. -/
def Problem.toValue (p : Problem) : Value :=
  .table [
    ("domains", p.domains.toValue),
    ("predicates", .list (p.schema.predicates.map PredicateDecl.toValue)),
    ("functions", .list (p.schema.functions.map FunctionDecl.toValue)),
    ("clauses", .list (p.clauses.map Clause.toValue)),
    ("evidence", .list (p.facts.map Fact.toValue)),
    ("function_mappings", .list (p.values.map FunctionValue.toValue)),
    ("open_world", .list (p.openWorld.map Signature.toValue)),
    ("query", .list (p.query.map Signature.toValue))]

end LogicNetwork
