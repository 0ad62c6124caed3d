/-
  Resolve — looking up the names of a clause.

  Variables are typed first, then literals are resolved in order, then restrictions; the first
  fault in that order is reported. A symbol means what the theory declares, and a builtin only
  if the theory does not declare it.
-/
import LogicNetwork.Builtin
import LogicNetwork.Grounding.Resolved

namespace LogicNetwork

/-! ### Terms -/

namespace Term

mutual

/-- Resolves a term that stands at a position; where the position has a domain, a constant has
to belong to it. -/
def resolve (e : Evidence) (b : Builtins) (slots : List Slot) : Term → Option Domain →
    Except Malformation ResolvedTerm
  | const c, some d =>
    match d.indexOf? c with
    | some i => .ok (.const (.member d i))
    | none => .error (.foreignConstant c d.name)
  | const c, none => .ok (.const (.text c))
  | var v, _ =>
    match slots.findIdx? fun slot => slot.name == v.name with
    | some i => .ok (.slot i)
    | none => .error (.unboundVariable v.name)
  | app f as, _ =>
    match e.function? ⟨f, as.length⟩ with
    | some t => (resolveAll e b slots as (t.domains.map some)).map (.tabled t)
    | none =>
      match b.function? ⟨f, as.length⟩ with
      | some g => (resolveAll e b slots as (List.replicate as.length none)).map (.computed g)
      | none => .error (.unknownFunction ⟨f, as.length⟩)

/-- Resolves terms that stand at positions. -/
def resolveAll (e : Evidence) (b : Builtins) (slots : List Slot) : List Term →
    List (Option Domain) → Except Malformation (List ResolvedTerm)
  | a :: as, p :: ps => do
    let r ← resolve e b slots a p
    (resolveAll e b slots as ps).map (r :: ·)
  | _, _ => .ok []

end

end Term

/-! ### Literals and restrictions -/

/-- Resolves a literal. -/
def Literal.resolve (e : Evidence) (b : Builtins) (slots : List Slot) (l : Literal) :
    Except Malformation ResolvedLiteral :=
  match e.table? l.signature with
  | some t =>
    (Term.resolveAll e b slots l.arguments (t.block.domains.map some)).map (.atom l.positive t)
  | none =>
    match b.predicate? l.signature with
    | some test =>
      (Term.resolveAll e b slots l.arguments (List.replicate l.arguments.length none)).map
        (.computed l.positive test)
    | none => .error (.unknownPredicate l.signature)

/-- Resolves a restriction. -/
def Restriction.resolve (e : Evidence) (b : Builtins) (slots : List Slot) (r : Restriction) :
    Except Malformation ResolvedRestriction := do
  let left ← r.left.resolve e b slots none
  let right ← r.right.resolve e b slots none
  .ok ⟨r.equal, left, right⟩

/-! ### Clauses -/

/-- Resolves a clause. -/
def Clause.resolve {α : Type} (e : Evidence) (b : Builtins) (c : Clause α) :
    Except GroundingError ResolvedClause := do
  let slots ← c.slots e.layout
  let literals ← (c.literals.mapM (Literal.resolve e b slots)).mapError (.malformed c.index)
  let restrictions ←
    (c.restrictions.mapM (Restriction.resolve e b slots)).mapError (.malformed c.index)
  .ok ⟨c.index, c.isHard, slots, literals, restrictions⟩

end LogicNetwork
