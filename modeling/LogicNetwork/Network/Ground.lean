/-
  Ground — the network of clauses under evidence.

  All clauses are resolved, all substitutions counted, then worked through; the surviving
  ground clauses are merged, and each set of literals with a frequency left becomes a
  constraint. The atoms are those of the constraints and the unknown ones of the query.
  Of several faults the first is reported: of the list of clauses, of the query, of a clause
  as such, of the number of substitutions or their chunks, of a hard clause against the
  evidence, of hard clauses against each other.
-/
import Std.Data.TreeSet
import LogicNetwork.Grounding.Resolve
import LogicNetwork.Network.Basic

namespace LogicNetwork

variable {α : Type} [WeightArithmetic α]

/-! ### Checks -/

/-- Checks that no clause repeats an index of those seen before it, and that weights are numbers. -/
def checkClauses : List Nat → List (Clause α) → Except GroundingError Unit
  | _, [] => .ok ()
  | seen, c :: rest =>
    if seen.contains c.index then .error (.malformed c.index .repeatedIndex)
    else if !c.weight.isFinite then .error (.malformed c.index (.weightNotFinite c.weight.text))
    else checkClauses (c.index :: seen) rest

/-- Checks that the signatures of a query are declared. -/
def checkQuery (l : Layout) (query : List Signature) : Except GroundingError Unit :=
  query.forM fun s => ((l.block s).map fun _ => ()).mapError GroundingError.layout

/-! ### Merged ground clauses -/

/-- The sources of merged tallies: the clauses with a frequency other than zero. -/
def sourcesOf (tallies : List (Nat × Tally)) : List Source :=
  (tallies.map fun (clause, t) => ⟨clause, t.frequency⟩).filter fun s => s.frequency ≠ 0

/-- Checks that the hard clauses among merged tallies agree on a sign. -/
def checkSigns (weightOf : Nat → Weight α) (literals : List GroundLiteral)
    (tallies : List (Nat × Tally)) : Except GroundingError Unit :=
  let hard := tallies.filter fun entry => (weightOf entry.1).isHard
  if hard.any (fun entry => 0 < entry.2.plus) && hard.any (fun entry => 0 < entry.2.minus) then
    let atom := match literals with
      | [] => 0
      | l :: _ => l.atom.number
    .error (.conflictingHardClauses atom (hard.map Prod.fst))
  else .ok ()

/-- The constraints of merged ground clauses, in order. -/
def constraintsOf (weightOf : Nat → Weight α) :
    List (List GroundLiteral × List (Nat × Tally)) → Except GroundingError (List (Constraint α))
  | [] => .ok []
  | (literals, tallies) :: rest => do
    checkSigns weightOf literals tallies
    let constraints ← constraintsOf weightOf rest
    match sourcesOf tallies with
    | [] => .ok constraints
    | sources => .ok (⟨literals, combineWeights weightOf sources, sources⟩ :: constraints)

/-- The atoms of constraints and the unknown atoms of a query, by ascending id. -/
def atomsOf (e : Evidence) (query : List Signature) (constraints : List (Constraint α)) :
    List AtomId :=
  let mentioned := constraints.flatMap fun c => c.literals.map GroundLiteral.atom
  let asked := query.flatMap fun s => ((e.table? s).map FactTable.unknownIds).getD []
  (Std.TreeSet.ofList (mentioned ++ asked)).toList

/-! ### Grounding -/

/-- Checks clauses and a query, and resolves the clauses. -/
def resolveAll (b : Builtins) (e : Evidence) (clauses : List (Clause α))
    (query : List Signature) : Except GroundingError (List ResolvedClause) := do
  checkClauses [] clauses
  checkQuery e.layout query
  clauses.mapM (Clause.resolve e b)

/-- Works through all substitutions of clauses, in chunks of a size. -/
def groundAll (chunkSize : Nat) (counted : List (ResolvedClause × Nat)) :
    Except GroundingError GroundingRun :=
  counted.foldlM (fun run (c, total) => run.recordClause chunkSize c total) .start

/-- The network of what is left of clauses. -/
def Network.ofRun (e : Evidence) (clauses : List (Clause α)) (query : List Signature)
    (run : GroundingRun) : Except GroundingError (Network α) := do
  let weightOf := fun k => (clauseWeight? clauses k).getD (.soft 0)
  let table := TallyTable.ofList run.contributions.reverse
  let constraints ← constraintsOf weightOf table.entries
  .ok {
    atoms := ((atomsOf e query constraints).map NetworkAtom.fresh).toArray
    constraints
    clauses
    evidence := e
    query
    samples := 0
    stats := run.stats }

/-- The network of clauses under evidence. -/
def Network.ground (chunkSize : Nat) (b : Builtins) (e : Evidence) (clauses : List (Clause α))
    (query : List Signature) : Except Abort (Network α) := do
  let resolved ← (resolveAll b e clauses query).mapError Abort.ofGrounding
  let totals ← resolved.mapM (ResolvedClause.substitutionsBy chunkSize)
  (groundAll chunkSize (resolved.zip totals) >>= Network.ofRun e clauses query).mapError
    Abort.ofGrounding

end LogicNetwork
