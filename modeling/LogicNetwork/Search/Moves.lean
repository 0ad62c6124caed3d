/-
  Moves — the steps of a local search.

  A walk step takes a bad constraint and flips one of its atoms that can mend it, either the
  one that does the least harm or any. An annealing step takes any atom and flips it if that
  does no harm, and with a falling probability if it does. Both say whether they flipped.
-/
import LogicNetwork.Search.State

namespace LogicNetwork.SearchState

variable {α : Type} [WeightArithmetic α] {g : SearchGraph α} {σ : Type} [RandomSource σ]

/-! ### Starting assignments -/

/-- A random assignment, or the one that makes every atom false. -/
def initialTruth (atoms : Nat) (isRandom : Bool) (random : σ) : Vector Bool atoms × σ :=
  Fin.foldl atoms
    (fun (truth, random) a =>
      let (value, random) := RandomSource.both isRandom 0.5 random
      (truth.set a value a.isLt, random))
    (Vector.replicate atoms false, random)

/-! ### Walk steps -/

/-- The atoms of a constraint that are not pinned and whose flip changes the constraint for the
better: any of them if it wants to be true, those of its true literals otherwise. -/
def candidates (s : SearchState g) (c : Fin g.size) : List (Fin g.atoms) :=
  let constraint := g.constraintAt c
  let isCandidate (a : Fin g.atoms) (positive : Bool) : Bool :=
    (s.pinned.get a).isNone && (constraint.weight.wantsTrue || s.truth.get a == positive)
  (constraint.literals.filter fun (a, positive) => isCandidate a positive).map Prod.fst

/-- Whether a change is less than the least one so far; before the first one, anything short of
infinity is. -/
def improves (least : Option α) (change : α) : Bool :=
  match least with
  | some d => decide (change < d)
  | none => decide (change ≤ change) && WeightArithmetic.infinite? change != some true

/-- The first of some atoms whose flip changes the measure least; `fallback` if none is better
than infinity. -/
def leastHarmful (s : SearchState g) (fallback : Fin g.atoms) (atoms : List (Fin g.atoms)) :
    Fin g.atoms :=
  (atoms.foldl
    (fun (best, least) a =>
      let change := s.delta a
      if improves least change then (a, some change) else (best, least))
    (fallback, none)).1

/-- One of the candidates: the least harmful with the given probability, any otherwise. -/
def chooseAtom (s : SearchState g) (greedyChance : Float) (first : Fin g.atoms)
    (rest : List (Fin g.atoms)) (random : σ) : Fin g.atoms × σ :=
  let (greedy, random) := RandomSource.happens greedyChance random
  if greedy then (s.leastHarmful first (first :: rest), random)
  else
    let (i, random) := RandomSource.below (first :: rest).length (Nat.succ_pos _) random
    ((first :: rest)[i], random)

/-- Flips an atom of a bad constraint; nothing happens without a bad constraint or a candidate. -/
def walkStep (s : SearchState g) (greedyChance : Float) (random : σ) :
    Bool × SearchState g × σ :=
  if h : 0 < s.bad.size then
    let (i, random) := RandomSource.below s.bad.size h random
    match s.candidates s.bad[i] with
    | [] => (false, s, random)
    | first :: rest =>
      let (a, random) := s.chooseAtom greedyChance first rest random
      (true, s.flip a, random)
  else (false, s, random)

/-! ### Annealing steps -/

/-- Whether a change is taken at a temperature: an improvement always, no change half the time,
so that atoms that no constraint holds take every value. -/
def accepts (change : α) (temperature : Float) (random : σ) : Bool × σ :=
  if change < 0 then (true, random)
  else if change ≤ 0 then RandomSource.happens 0.5 random
  else RandomSource.happens (WeightArithmetic.acceptChance change temperature) random

/-- Flips any atom, if it is not pinned and the change is taken. -/
def annealStep (s : SearchState g) (temperature : Float) (random : σ) :
    Bool × SearchState g × σ :=
  if h : 0 < g.atoms then
    let (a, random) := RandomSource.below g.atoms h random
    if (s.pinned.get a).isSome then (false, s, random)
    else
      let (accepted, random) := accepts (s.delta a) temperature random
      (accepted, if accepted then s.flip a else s, random)
  else (false, s, random)

end LogicNetwork.SearchState
