/-
  Propagate — values that the active constraints force.

  A constraint that wants to be true and has a single literal left open forces that literal; one
  that wants to be false forces all its literals false. Forced values are applied in sweeps over
  the constraints until a sweep forces nothing more, which happens at the latest when every atom
  has a value. A constraint that can no longer get its way is a conflict.
-/
import LogicNetwork.Search.State

namespace LogicNetwork

/-- The values forced so far. -/
abbrev Forced (atoms : Nat) := Vector (Option Bool) atoms

namespace GraphConstraint

variable {α : Type} [WeightArithmetic α] {atoms : Nat}

/-- The literals whose atoms have no value. -/
def openLiterals (c : GraphConstraint α atoms) (forced : Forced atoms) :
    List (Fin atoms × Bool) :=
  c.literals.filter fun l => (forced.get l.1).isNone

/-- Forces the last open literal of a constraint that wants to be true. Gives the values and
whether there is a new one; nothing on a conflict. -/
def forceTrue (c : GraphConstraint α atoms) (forced : Forced atoms) :
    Option (Forced atoms × Bool) :=
  if c.literals.any fun l => forced.get l.1 == some l.2 then some (forced, false)
  else match c.openLiterals forced with
    | [] => none
    | [l] => some (forced.set l.1 (some l.2) l.1.isLt, true)
    | _ => some (forced, false)

/-- Forces literals false. Gives the values and whether there is a new one; nothing on a
conflict. -/
def forceFalse : List (Fin atoms × Bool) → Forced atoms × Bool → Option (Forced atoms × Bool)
  | [], found => some found
  | l :: rest, (forced, isNew) =>
    match forced.get l.1 with
    | some value => if value == l.2 then none else forceFalse rest (forced, isNew)
    | none => forceFalse rest (forced.set l.1 (some !l.2) l.1.isLt, true)

/-- Forces what a constraint needs for its preferred state. -/
def force (c : GraphConstraint α atoms) (forced : Forced atoms) : Option (Forced atoms × Bool) :=
  if c.weight.wantsTrue then c.forceTrue forced else forceFalse c.literals (forced, false)

end GraphConstraint

namespace SearchState

variable {α : Type} [WeightArithmetic α] {g : SearchGraph α}

/-- One sweep over a list of constraints, of which the active ones force values. -/
def sweep (s : SearchState g) : List (Fin g.size) → Forced g.atoms × Bool →
    Option (Forced g.atoms × Bool)
  | [], found => some found
  | c :: rest, (forced, isNew) =>
    if s.active.get c then
      match (g.constraintAt c).force forced with
      | none => none
      | some (forced, changed) => sweep s rest (forced, isNew || changed)
    else sweep s rest (forced, isNew)

/-- Sweeps until nothing new is forced, at most the given number of times. -/
def sweeps (s : SearchState g) : Nat → Forced g.atoms → Option (Forced g.atoms)
  | 0, forced => some forced
  | n + 1, forced =>
    match s.sweep (List.finRange g.size) (forced, false) with
    | none => none
    | some (forced, true) => sweeps s n forced
    | some (forced, false) => some forced

/-- The values that the active constraints force; nothing on a conflict. -/
def propagate (s : SearchState g) : Option (Forced g.atoms) :=
  s.sweeps (g.atoms + 1) (Vector.replicate g.atoms none)

/-- Pins every atom with a forced value. -/
def pinForced (s : SearchState g) (forced : Forced g.atoms) : SearchState g :=
  Fin.foldl g.atoms
    (fun s a => match forced.get a with
      | some value => s.pin a value
      | none => s)
    s

end SearchState

end LogicNetwork
