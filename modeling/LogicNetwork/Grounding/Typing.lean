/-
  Typing — what the variables of a clause range over.

  A variable ranges over the domain that its first occurrence is annotated with, or else over
  the domain of the argument positions it stands at. Positions of declared predicates and
  functions have a domain, positions of computed ones and of restrictions have none. Two
  positions with different domains are a conflict.
-/
import LogicNetwork.Clause
import LogicNetwork.Evidence.Store

namespace LogicNetwork

/-- A clause variable and the domain it ranges over. -/
structure Slot where
  name : String
  domain : Domain
deriving DecidableEq

/-- The domain names of variables; the latest entry of a name counts. -/
abbrev Typing := List (String × String)

namespace Typing

/-- The domain name of a variable. -/
def domain? (types : Typing) (name : String) : Option String :=
  (types.find? fun entry => entry.1 == name).map Prod.snd

/-- Lets a variable of a clause range over a domain, unless it ranges over another. -/
def assign (types : Typing) (clause : Nat) (name domain : String) :
    Except GroundingError Typing :=
  match types.domain? name with
  | some first =>
    if first = domain then .ok types
    else .error (.conflictingDomains clause name first domain)
  | none => .ok ((name, domain) :: types)

end Typing

/-! ### Positions -/

/-- The domain names of the arguments of a function, where it is declared. -/
def Schema.argumentDomains (s : Schema) (signature : Signature) : List (Option String) :=
  match s.function? signature with
  | some decl => decl.domains.map some
  | none => List.replicate signature.arity none

/-- The domain names of the arguments of a predicate, where it is declared. -/
def Layout.argumentDomains (l : Layout) (signature : Signature) : List (Option String) :=
  match l.block? signature with
  | some b => b.domains.map fun d => some d.name
  | none => List.replicate signature.arity none

namespace Term

mutual

/-- Types the variables of a term that stands at a position. -/
def infer (s : Schema) (clause : Nat) : Term → Option String → Typing →
    Except GroundingError Typing
  | const _, _, types => .ok types
  | var v, some domain, types => types.assign clause v.name domain
  | var _, none, types => .ok types
  | app f as, _, types => inferAll s clause as (s.argumentDomains ⟨f, as.length⟩) types

/-- Types the variables of terms that stand at positions. -/
def inferAll (s : Schema) (clause : Nat) : List Term → List (Option String) → Typing →
    Except GroundingError Typing
  | a :: as, p :: ps, types => do inferAll s clause as ps (← infer s clause a p types)
  | _, _, types => .ok types

end

end Term

/-! ### Clauses -/

namespace Clause

variable {α : Type}

/-- The domains that first occurrences are annotated with. -/
def annotations (c : Clause α) : Typing :=
  c.freeVariables.filterMap fun v => v.domain.map fun d => (v.name, d)

/-- The typing of a clause: annotations, then literals in order, then restrictions. -/
def typing (c : Clause α) (l : Layout) : Except GroundingError Typing := do
  let types ← c.literals.foldlM
    (fun types literal =>
      Term.inferAll l.schema c.index literal.arguments (l.argumentDomains literal.signature) types)
    c.annotations
  c.restrictions.foldlM
    (fun types r => do
      r.right.infer l.schema c.index none (← r.left.infer l.schema c.index none types))
    types

/-- The slot of a variable under a typing. -/
def slot (c : Clause α) (l : Layout) (types : Typing) (v : Variable) :
    Except GroundingError Slot :=
  match types.domain? v.name with
  | none => .error (.missingDomain c.index v.name)
  | some name =>
    match l.domains.get? name with
    | none => .error (.malformed c.index (.unknownDomain name))
    | some domain => .ok ⟨v.name, domain⟩

/-- The variables of a clause with their domains. -/
def slots (c : Clause α) (l : Layout) : Except GroundingError (List Slot) := do
  c.freeVariables.mapM (c.slot l (← c.typing l))

end Clause

end LogicNetwork
