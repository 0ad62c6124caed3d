/-
  State — an assignment and the bookkeeping of a local search.

  A state follows an assignment with, for every constraint, the number of its true literals,
  and with the list of active constraints that are out of their preferred state (`bad`), where
  `place` finds a constraint in constant time. A flip touches the constraints of one atom and
  nothing else. Which constraints are active changes between rounds, and atoms can be pinned
  to a value for a round.
-/
import LogicNetwork.Random.Source
import LogicNetwork.Search.Graph

namespace LogicNetwork

/-- How a search weighs a bad constraint. -/
inductive Measure
  /-- Each counts one. -/
  | count
  /-- Soft ones by the size of their weight, hard ones by the penalty of the graph. -/
  | weighted
deriving DecidableEq, Repr

/-- An assignment and its bookkeeping. -/
structure SearchState {α : Type} (g : SearchGraph α) where
  measure : Measure
  truth : Vector Bool g.atoms
  pinned : Vector (Option Bool) g.atoms
  /-- For each constraint, how many of its literals are true. -/
  trueLiterals : Vector Nat g.size
  active : Vector Bool g.size
  /-- The active constraints out of their preferred state. -/
  bad : Array (Fin g.size)
  /-- For each constraint, where it stands in the list of bad ones. -/
  place : Vector (Option Nat) g.size
  /-- The number of hard constraints in the list. -/
  badHard : Nat
  /-- The summed sizes of the soft weights in the list. -/
  badSoft : α

namespace SearchState

variable {α : Type} [WeightArithmetic α] {g : SearchGraph α}

/-- The state of an assignment with nothing active and nothing pinned. -/
def start (g : SearchGraph α) (measure : Measure) (truth : Vector Bool g.atoms) :
    SearchState g where
  measure := measure
  truth := truth
  pinned := Vector.replicate g.atoms none
  trueLiterals := Vector.ofFn fun c => (g.constraintAt c).trueLiterals truth
  active := Vector.replicate g.size false
  bad := #[]
  place := Vector.replicate g.size none
  badHard := 0
  badSoft := 0

/-- Whether a constraint is in its preferred state. -/
def isGood (s : SearchState g) (c : Fin g.size) : Bool :=
  (g.constraintAt c).weight.isGood (s.trueLiterals.get c)

/-! ### The list of bad constraints -/

/-- Appends a constraint to the list. -/
def addBad (s : SearchState g) (c : Fin g.size) : SearchState g :=
  let weight := (g.constraintAt c).weight
  { s with
    place := s.place.set c (some s.bad.size)
    bad := s.bad.push c
    badHard := if weight.isHard then s.badHard + 1 else s.badHard
    badSoft := if weight.isHard then s.badSoft else s.badSoft + weight.softSize }

/-- A list without the entry at a place, which the last entry takes. -/
def dropAt {β : Type} (l : Array β) (i : Nat) : Array β :=
  (l.swapIfInBounds i (l.size - 1)).pop

/-- Takes a constraint out of the list; the last one moves to its place. -/
def removeBad (s : SearchState g) (c : Fin g.size) : SearchState g :=
  match s.place.get c with
  | none => s
  | some i =>
    let weight := (g.constraintAt c).weight
    let bad := dropAt s.bad i
    let place := match bad[i]? with
      | some moved => s.place.set moved (some i)
      | none => s.place
    { s with
      bad
      place := place.set c none
      badHard := if weight.isHard then s.badHard - 1 else s.badHard
      badSoft := if weight.isHard then s.badSoft else s.badSoft - weight.softSize }

/-- Empties the list; only the constraints in it lose a place. -/
def clearBad (s : SearchState g) : SearchState g :=
  { s with
    bad := #[]
    place := s.bad.foldl (fun place (c : Fin g.size) => place.set c none) s.place
    badHard := 0
    badSoft := 0 }

/-! ### Active constraints -/

/-- Makes a constraint active or not, and lists it if it is active and bad. -/
def setActiveAt (s : SearchState g) (c : Fin g.size) (chosen : Bool) : SearchState g :=
  let s := { s with active := s.active.set c chosen }
  if chosen && !s.isGood c then s.addBad c else s

/-- Chooses the active constraints anew, in order. The choice sees the number of the constraint,
the constraint, and whether it is in its preferred state; constraints beyond the reach of moves
are never active and are not put to the choice. -/
def setActive {σ : Type} (s : SearchState g)
    (choose : Fin g.size → GraphConstraint α g.atoms → Bool → σ → Bool × σ) (random : σ) :
    SearchState g × σ :=
  Fin.foldl g.size
    (fun (s, random) c =>
      if (g.constraintAt c).isSearchable then
        let (chosen, random) := choose c (g.constraintAt c) (s.isGood c) random
        (s.setActiveAt c chosen, random)
      else (s.setActiveAt c false, random))
    (s.clearBad, random)

/-- Makes the constraints active whose weights pass a test. -/
def setActiveWhere (s : SearchState g) (test : GroundWeight α → Bool) : SearchState g :=
  (s.setActive (fun _ c _ u => (test c.weight, u)) ()).1

/-! ### Flips -/

/-- Gives a constraint another number of true literals. -/
def recount (s : SearchState g) (c : Fin g.size) (count : Nat) : SearchState g :=
  { s with trueLiterals := s.trueLiterals.set c count }

/-- Lists or unlists a constraint after its number of true literals has changed. -/
def relist (s : SearchState g) (c : Fin g.size) : SearchState g :=
  if s.active.get c then
    if s.isGood c then
      if (s.place.get c).isSome then s.removeBad c else s
    else if (s.place.get c).isSome then s else s.addBad c
  else s

/-- Counts one more or one fewer true literal of a constraint, and lists or unlists it. -/
def touch (s : SearchState g) (c : Fin g.size) (nowTrue : Bool) : SearchState g :=
  let count := s.trueLiterals.get c
  (s.recount c (if nowTrue then count + 1 else count - 1)).relist c

/-- Gives an atom a value, with the numbers of true literals as they were. -/
def assign (s : SearchState g) (a : Fin g.atoms) (value : Bool) : SearchState g :=
  { s with truth := s.truth.set a value }

/-- Gives an atom the other value. -/
def flip (s : SearchState g) (a : Fin g.atoms) : SearchState g :=
  let value := !s.truth.get a
  (g.occurrences.get a).foldl (fun s (c, positive) => s.touch c (positive == value))
    (s.assign a value)

/-- Notes that an atom is pinned, with the assignment as it was. -/
def note (s : SearchState g) (a : Fin g.atoms) (value : Bool) : SearchState g :=
  { s with pinned := s.pinned.set a (some value) }

/-- Pins an atom to a value. -/
def pin (s : SearchState g) (a : Fin g.atoms) (value : Bool) : SearchState g :=
  let s := s.note a value
  if s.truth.get a == value then s else s.flip a

/-- Releases all pinned atoms. -/
def unpin (s : SearchState g) : SearchState g :=
  { s with pinned := Vector.replicate g.atoms none }

/-! ### Costs -/

/-- What a bad constraint is charged in the measure of the search. -/
def chargeOf (s : SearchState g) (c : Fin g.size) : α :=
  match s.measure with
  | .count => 1
  | .weighted =>
    if (g.constraintAt c).weight.isHard then g.hardPenalty else (g.constraintAt c).weight.softSize

/-- How much more the bad active constraints would be charged if an atom flipped. -/
def delta (s : SearchState g) (a : Fin g.atoms) : α :=
  let value := s.truth.get a
  (g.occurrences.get a).foldl
    (fun sum (c, positive) =>
      if s.active.get c then
        let weight := (g.constraintAt c).weight
        let count := s.trueLiterals.get c
        let after := if positive == value then count - 1 else count + 1
        match weight.isGood count, weight.isGood after with
        | true, false => sum + s.chargeOf c
        | false, true => sum - s.chargeOf c
        | _, _ => sum
      else sum)
    0

/-- What the bad active constraints are charged; rounding never takes it below zero. -/
def activeCost (s : SearchState g) : Cost α :=
  ⟨s.badHard, if 0 < s.badSoft then s.badSoft else 0⟩

/-- What the assignment is charged over all constraints. -/
def fullCost (s : SearchState g) : Cost α :=
  g.costOf s.truth

end SearchState

end LogicNetwork
