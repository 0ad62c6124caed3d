/-
  Basic — ground networks.

  A network has the undecided atoms that matter, by ascending id, and the constraints over
  them. Its structure is fixed; what changes are the states of the atoms, the counts of the
  samples in which they were true, and the weights of the constraints.
-/
import LogicNetwork.Clause
import LogicNetwork.Evidence.Store
import LogicNetwork.Grounding.Enumeration
import LogicNetwork.Network.Constraint

namespace LogicNetwork

/-! ### Atoms -/

/-- A random variable of a network. -/
structure NetworkAtom where
  id : AtomId
  state : Bool
  /-- In how many of the samples the atom was true. -/
  trueCount : Nat
deriving DecidableEq, Repr

/-- An atom that is false and was never sampled. -/
def NetworkAtom.fresh (id : AtomId) : NetworkAtom :=
  ⟨id, false, 0⟩

/-- The place of an id among atoms of ascending ids, if it is between two places. -/
def findSlot (atoms : Array NetworkAtom) (id : Nat) (low high : Nat) : Option (Fin atoms.size) :=
  if h : low < high ∧ high ≤ atoms.size then
    let middle := (low + high) / 2
    have inside : middle < atoms.size := by omega
    let found := atoms[middle].id.number
    if found = id then some ⟨middle, inside⟩
    else if found < id then findSlot atoms id (middle + 1) high
    else findSlot atoms id low middle
  else none
termination_by high - low

/-! ### Networks -/

/-- A ground network, with what it was grounded from. -/
structure Network (α : Type) where
  atoms : Array NetworkAtom
  constraints : List (Constraint α)
  clauses : List (Clause α)
  evidence : Evidence
  query : List Signature
  /-- The number of samples behind the counts. -/
  samples : Nat
  stats : GroundingStats

namespace Network

variable {α : Type}

/-- The place of an atom. -/
def slot? (n : Network α) (id : AtomId) : Option (Fin n.atoms.size) :=
  findSlot n.atoms id.number 0 n.atoms.size

/-- An atom of the network. -/
def atom? (n : Network α) (id : AtomId) : Option NetworkAtom :=
  (n.slot? id).map fun i => n.atoms[i]

/-- An atom that has to be in the network. -/
def atom (n : Network α) (id : AtomId) : Except Misuse NetworkAtom :=
  match n.atom? id with
  | some a => .ok a
  | none => .error (.notInNetwork id.number)

/-- The state of an atom; atoms outside the network count as false. -/
def stateOf (n : Network α) (id : AtomId) : Bool :=
  (n.atom? id).any (·.state)

/-- Sets the state of an atom, which has to be in the network. -/
def setState (n : Network α) (id : AtomId) (state : Bool) : Except Misuse (Network α) :=
  match n.slot? id with
  | some i => .ok { n with atoms := n.atoms.set i { n.atoms[i] with state } }
  | none => .error (.notInNetwork id.number)

/-- Sets the states of all atoms. -/
def setStates (n : Network α) (states : Array Bool) : Network α :=
  { n with atoms := n.atoms.mapIdx fun i a => { a with state := states.getD i a.state } }

/-- Records for every atom the number of samples in which it was true. -/
def recordSamples (n : Network α) (counts : Array Nat) (samples : Nat) : Network α :=
  { n with
    atoms := n.atoms.mapIdx fun i a => { a with trueCount := counts.getD i a.trueCount }
    samples }

/-- Makes every atom false and forgets the samples. -/
def resetStates (n : Network α) : Network α :=
  { n with atoms := n.atoms.map fun a => .fresh a.id, samples := 0 }

/-- The share of the samples in which an atom was true: zero without samples, and otherwise the
atom has to be in the network. -/
def marginal (n : Network α) (id : AtomId) : Except Misuse Float :=
  if n.samples = 0 then .ok 0
  else (n.atom id).map fun a =>
    (UInt64.ofNat a.trueCount).toFloat / (UInt64.ofNat n.samples).toFloat

/-- The atoms of query signatures. -/
def queryAtoms (n : Network α) : List NetworkAtom :=
  let blocks := n.query.filterMap n.evidence.layout.block?
  n.atoms.toList.filter fun a => blocks.any fun b => b.contains a.id.number

variable [WeightArithmetic α]

/-- What the current states are charged for. -/
def cost (n : Network α) : Cost α :=
  n.constraints.foldl (fun cost c => cost.chargeFor c.weight (c.trueLiterals n.stateOf)) .zero

/-! ### Weights -/

/-- Computes weights anew from the weights of clauses, starting with the constraint at a
position. Stops at the first source of unknown weight; the constraints before it have changed. -/
def reweighFrom (weightOf : Nat → Option (Weight α)) : Nat → List (Constraint α) →
    List (Constraint α) × Except Misuse Unit
  | _, [] => ([], .ok ())
  | position, c :: rest =>
    match c.sources.find? fun s => (weightOf s.clause).isNone with
    | some s => (c :: rest, .error (.unknownWeight s.clause position))
    | none =>
      let (changed, result) := reweighFrom weightOf (position + 1) rest
      (c.reweigh (fun k => (weightOf k).getD (.soft 0)) :: changed, result)

/-- Computes every weight anew from the weights of clauses, by clause index. -/
def updateWeights (n : Network α) (weightOf : Nat → Option (Weight α)) :
    Network α × Except Misuse Unit :=
  let (constraints, result) := reweighFrom weightOf 0 n.constraints
  ({ n with constraints }, result)

/-- The weight of the clause of an index. -/
def clauseWeight? (clauses : List (Clause α)) (index : Nat) : Option (Weight α) :=
  (clauses.find? fun c => c.index == index).map Clause.weight

/-- Computes every weight anew from the clauses that the network was grounded from. -/
def resetWeights (n : Network α) : Network α × Except Misuse Unit :=
  n.updateWeights (clauseWeight? n.clauses)

/-! ### Summaries -/

/-- The number of hard constraints. -/
def hardCount (n : Network α) : Nat :=
  n.constraints.countP Constraint.isHard

/-- One line about the network. -/
def text (n : Network α) : String :=
  "ground MRF: " ++ toString n.atoms.size ++ " atoms, " ++ toString n.constraints.length ++
    " constraints (" ++ toString n.hardCount ++ " hard, " ++
    toString (n.constraints.length - n.hardCount) ++ " soft)"

/-- A label, padded, and a number. -/
def summaryLine (label : String) (count : Nat) : String :=
  "  " ++ label ++ String.ofList (List.replicate (16 - label.length) ' ') ++ toString count ++ "\n"

/-- The counts of a network, one a line. -/
def summary (n : Network α) : String :=
  "ground network\n" ++ String.join [
    summaryLine "atoms:" n.atoms.size,
    summaryLine "constraints:" n.constraints.length,
    summaryLine "hard:" n.hardCount,
    summaryLine "unit:" (n.constraints.countP Constraint.isUnit),
    summaryLine "empty:" (n.constraints.countP Constraint.isEmpty),
    summaryLine "substitutions:" n.stats.substitutions,
    summaryLine "satisfied:" n.stats.satisfied,
    summaryLine "skipped:" n.stats.skipped]

end Network

end LogicNetwork
