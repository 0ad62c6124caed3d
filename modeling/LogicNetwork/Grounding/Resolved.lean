/-
  Resolved — clauses ready to be grounded.

  In a resolved clause every name has been looked up: predicates are fact tables or tests,
  functions are tables of values or computations, variables are slots. A substitution gives
  each slot the number of a constant. A constant is carried by its number in a domain as long
  as it can be, and by its text once a computation has produced it; `Denotation.indexIn?` and
  `Denotation.same` agree with comparing the texts.
-/
import LogicNetwork.Grounding.Typing

namespace LogicNetwork

/-! ### Constants -/

/-- A constant under a substitution. -/
inductive Denotation
  /-- A constant known by its number in a domain. -/
  | member (domain : Domain) (index : Nat)
  /-- A constant known by its text. -/
  | text (symbol : String)

namespace Denotation

/-- The text of a constant. -/
def symbol : Denotation → String
  | member d i => d.symbol i
  | text s => s

/-- The number of a constant in a domain. -/
def indexIn? (v : Denotation) (d : Domain) : Option Nat :=
  match v with
  | member e i => if e.name = d.name then some i else d.indexOf? (e.symbol i)
  | text s => d.indexOf? s

/-- Whether two constants are the same. -/
def same : Denotation → Denotation → Bool
  | member d i, member e j => if d.name = e.name then i == j else d.symbol i == e.symbol j
  | v, w => v.symbol == w.symbol

end Denotation

/-! ### Terms -/

/-- A term whose names have been looked up. -/
inductive ResolvedTerm
  | const (value : Denotation)
  /-- The variable of a slot. -/
  | slot (i : Nat)
  /-- A declared function. -/
  | tabled (table : FunctionTable) (arguments : List ResolvedTerm)
  /-- A computed function. -/
  | computed (f : List String → Option String) (arguments : List ResolvedTerm)

namespace ResolvedTerm

mutual

/-- The constant that a term denotes; absent where a function is undefined. -/
def denote? (slots : List Denotation) : ResolvedTerm → Option Denotation
  | const v => some v
  | slot i => slots[i]?
  | tabled t as => do
    let indices ← indices? slots as t.domains
    (t.value? indices).map (.member t.result)
  | computed f as => do
    let symbols ← symbols? slots as
    (f symbols).map .text

/-- The numbers of terms in the domains of their positions. -/
def indices? (slots : List Denotation) : List ResolvedTerm → List Domain → Option (List Nat)
  | a :: as, d :: ds => do
    let i ← (← denote? slots a).indexIn? d
    (indices? slots as ds).map (i :: ·)
  | _, _ => some []

/-- The texts of terms. -/
def symbols? (slots : List Denotation) : List ResolvedTerm → Option (List String)
  | [] => some []
  | a :: as => do
    let v ← denote? slots a
    (symbols? slots as).map (v.symbol :: ·)

end

end ResolvedTerm

/-! ### Literals -/

/-- A literal whose names have been looked up. -/
inductive ResolvedLiteral
  /-- A ground atom once the slots are filled. -/
  | atom (positive : Bool) (table : FactTable) (arguments : List ResolvedTerm)
  /-- A computed predicate. -/
  | computed (positive : Bool) (test : List String → Bool) (arguments : List ResolvedTerm)

/-- What becomes of a literal under a substitution. -/
inductive Verdict
  | holds
  | fails
  /-- The evidence does not decide the atom. -/
  | undecided (literal : GroundLiteral)
  /-- The literal denotes no ground atom. -/
  | undefined
deriving DecidableEq, Repr

/-- A literal whose truth is known. -/
def Verdict.ofBool (b : Bool) : Verdict :=
  if b then .holds else .fails

/-- The verdict on a literal: computed predicates are evaluated, atoms looked up. -/
def ResolvedLiteral.judge (slots : List Denotation) : ResolvedLiteral → Verdict
  | computed positive test as =>
    match ResolvedTerm.symbols? slots as with
    | none => .undefined
    | some symbols => .ofBool (test symbols == positive)
  | atom positive table as =>
    match (ResolvedTerm.indices? slots as table.block.domains).bind table.block.encodeIndices with
    | none => .undefined
    | some id =>
      match (table.get id).known? with
      | some truth => .ofBool (truth == positive)
      | none => .undecided ⟨id, positive⟩

/-! ### Sets of literals -/

/-- Whether a literal is listed before another: by atom, the negative one first. -/
def GroundLiteral.precedes (a b : GroundLiteral) : Bool :=
  decide (a.atom.number < b.atom.number) ||
    (a.atom.number == b.atom.number && !a.positive && b.positive)

/-- Puts a literal in its place in an ordered list, once. -/
def insertLiteral (l : GroundLiteral) : List GroundLiteral → List GroundLiteral
  | [] => [l]
  | m :: rest =>
    if l = m then m :: rest
    else if l.precedes m then l :: m :: rest
    else m :: insertLiteral l rest

/-- Whether two neighbours of a list are literals of the same atom. -/
def hasComplement : List GroundLiteral → Bool
  | a :: b :: rest => a.atom == b.atom || hasComplement (b :: rest)
  | _ => false

/-! ### Clauses -/

/-- What becomes of a clause under a substitution. -/
inductive Outcome
  /-- A literal holds, or two literals are opposite. -/
  | satisfied
  /-- A restriction is not met, or something is undefined. -/
  | skipped
  /-- The literals that the evidence does not decide, ordered; none if all are contradicted. -/
  | clause (literals : List GroundLiteral)
deriving DecidableEq, Repr

/-- A restriction whose names have been looked up. -/
structure ResolvedRestriction where
  equal : Bool
  left : ResolvedTerm
  right : ResolvedTerm

/-- Whether a restriction is met; an undefined side meets none. -/
def ResolvedRestriction.isMet (slots : List Denotation) (r : ResolvedRestriction) : Bool :=
  match r.left.denote? slots, r.right.denote? slots with
  | some v, some w => v.same w == r.equal
  | _, _ => false

/-- A clause whose names have been looked up. -/
structure ResolvedClause where
  index : Nat
  hard : Bool
  slots : List Slot
  literals : List ResolvedLiteral
  restrictions : List ResolvedRestriction

namespace ResolvedClause

/-- The constants of the slots under a substitution. -/
def denotations (c : ResolvedClause) (binding : List Nat) : List Denotation :=
  List.zipWith (fun slot i => .member slot.domain i) c.slots binding

/-- Judges literals in order, collecting the undecided ones; the first that holds or is
undefined ends it. -/
def judgeAll (slots : List Denotation) : List ResolvedLiteral → List GroundLiteral → Outcome
  | [], found => if hasComplement found then .satisfied else .clause found
  | l :: rest, found =>
    match l.judge slots with
    | .holds => .satisfied
    | .fails => judgeAll slots rest found
    | .undecided g => judgeAll slots rest (insertLiteral g found)
    | .undefined => .skipped

/-- The outcome of a clause under a substitution. -/
def outcome (c : ResolvedClause) (binding : List Nat) : Outcome :=
  let slots := c.denotations binding
  if c.restrictions.all (·.isMet slots) then judgeAll slots c.literals [] else .skipped

/-- The sizes of the domains of the slots. -/
def radices (c : ResolvedClause) : List Nat :=
  c.slots.map fun slot => slot.domain.size

/-- The variables of a substitution with the constants that it gives them. -/
def describe (c : ResolvedClause) (binding : List Nat) : List (String × String) :=
  List.zipWith (fun slot i => (slot.name, slot.domain.symbol i)) c.slots binding

end ResolvedClause

end LogicNetwork
