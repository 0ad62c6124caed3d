/-
  Clause — weighted disjunctions of first-order literals.

  A clause is grounded over the substitutions of its variables that meet its restrictions. A
  variable may name its domain at any of its occurrences; the first one in reading order
  (literals, then restrictions) is the one that stands in `Clause.freeVariables`.
-/
import LogicNetwork.Signature
import LogicNetwork.Weight

namespace LogicNetwork

/-! ### Terms -/

/-- A variable, with the domain that it is annotated with. -/
structure Variable where
  name : String
  domain : Option String
deriving DecidableEq, Repr, Inhabited

/-- An argument of a literal. -/
inductive Term
  | const (symbol : String)
  | var (v : Variable)
  | app (function : String) (arguments : List Term)
deriving Repr, Inhabited

namespace Term

mutual

/-- Decides equality of terms. -/
def decideEq : (a b : Term) → Decidable (a = b)
  | const c, const d =>
    if h : c = d then isTrue (h ▸ rfl) else isFalse fun e => h (const.inj e)
  | var v, var w =>
    if h : v = w then isTrue (h ▸ rfl) else isFalse fun e => h (var.inj e)
  | app f as, app g bs =>
    if h : f = g then
      match decideEqAll as bs with
      | isTrue e => isTrue (by rw [h, e])
      | isFalse n => isFalse fun e => n (app.inj e).2
    else isFalse fun e => h (app.inj e).1
  | const _, var _ => isFalse nofun
  | const _, app _ _ => isFalse nofun
  | var _, const _ => isFalse nofun
  | var _, app _ _ => isFalse nofun
  | app _ _, const _ => isFalse nofun
  | app _ _, var _ => isFalse nofun

/-- Decides equality of lists of terms. -/
def decideEqAll : (as bs : List Term) → Decidable (as = bs)
  | [], [] => isTrue rfl
  | [], _ :: _ => isFalse nofun
  | _ :: _, [] => isFalse nofun
  | a :: as, b :: bs =>
    match decideEq a b, decideEqAll as bs with
    | isTrue h, isTrue t => isTrue (by rw [h, t])
    | isFalse n, _ => isFalse fun e => n (List.cons.inj e).1
    | _, isFalse n => isFalse fun e => n (List.cons.inj e).2

end

instance : DecidableEq Term := decideEq

mutual

/-- The variables of a term, one for each occurrence, in reading order. -/
def freeVariables : Term → List Variable
  | const _ => []
  | var v => [v]
  | app _ as => freeVariablesOfAll as

/-- The variables of a list of terms. -/
def freeVariablesOfAll : List Term → List Variable
  | [] => []
  | a :: as => freeVariables a ++ freeVariablesOfAll as

end

mutual

/-- The text of a term; annotations are left out. -/
def text : Term → String
  | const c => c
  | var v => v.name
  | app f as => f ++ "(" ++ textOfAll as ++ ")"

/-- Texts of terms with commas between them. -/
def textOfAll : List Term → String
  | [] => ""
  | [a] => text a
  | a :: as => text a ++ "," ++ textOfAll as

end

end Term

/-! ### Literals and restrictions -/

/-- A predicate applied to terms, or the negation of that. -/
structure Literal where
  positive : Bool
  predicate : String
  arguments : List Term
deriving DecidableEq, Repr, Inhabited

namespace Literal

/-- The signature of the predicate. -/
def signature (l : Literal) : Signature :=
  ⟨l.predicate, l.arguments.length⟩

/-- The text of a literal; negation is an exclamation mark. -/
def text (l : Literal) : String :=
  (if l.positive then "" else "!") ++ l.predicate ++ "(" ++ Term.textOfAll l.arguments ++ ")"

end Literal

/-- Keeps the substitutions under which two terms denote the same constant, or different ones. -/
structure Restriction where
  equal : Bool
  left : Term
  right : Term
deriving DecidableEq, Repr, Inhabited

/-! ### Clauses -/

/-- A weighted disjunction. The index names the clause in a theory. -/
structure Clause (α : Type) where
  index : Nat
  weight : Weight α
  literals : List Literal
  restrictions : List Restriction
deriving BEq, Repr, Inhabited

/-- The variables of a list whose names have not occurred before, at their first occurrence. -/
def firstOccurrences (seen : List String) : List Variable → List Variable
  | [] => []
  | v :: rest =>
    if seen.contains v.name then firstOccurrences seen rest
    else v :: firstOccurrences (v.name :: seen) rest

namespace Clause

variable {α : Type}

/-- Every occurrence of a variable, in reading order. -/
def occurrences (c : Clause α) : List Variable :=
  c.literals.flatMap (fun l => Term.freeVariablesOfAll l.arguments) ++
    c.restrictions.flatMap fun r => r.left.freeVariables ++ r.right.freeVariables

/-- The variables, each at its first occurrence. -/
def freeVariables (c : Clause α) : List Variable :=
  firstOccurrences [] c.occurrences

/-- Whether the clause must hold. -/
def isHard (c : Clause α) : Bool :=
  c.weight.isHard

/-- The weight and the literals; restrictions are left out. -/
def text [WeightArithmetic α] (c : Clause α) : String :=
  c.weight.text ++ " " ++ " v ".intercalate (c.literals.map Literal.text)

end Clause

end LogicNetwork
