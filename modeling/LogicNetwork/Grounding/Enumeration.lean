/-
  Enumeration — grounding a clause over all its substitutions.

  The substitutions of a clause are the numerals over the sizes of its variables' domains, the
  first variable counting least. They are cut into chunks, and a chunk is worked through by
  counting up from its first numeral. A run gives the statistics and the contributions of the
  substitutions, in order, or the first substitution that contradicts a hard clause.
-/
import LogicNetwork.MixedRadix
import LogicNetwork.Grounding.Resolved
import LogicNetwork.Grounding.Tally

namespace LogicNetwork

/-! ### Counting substitutions -/

/-- The product of the radices and a number, as long as every partial product is a
64-bit word. -/
def count64? : Nat → List Nat → Option Nat
  | n, [] => some n
  | n, r :: rs => if n * r < wordBound then count64? (n * r) rs else none

/-- The number of substitutions of a clause, which has to be a 64-bit number. -/
def ResolvedClause.substitutions (c : ResolvedClause) : Except GroundingError Nat :=
  match count64? 1 c.radices with
  | some n => .ok n
  | none => .error (.malformed c.index .tooManySubstitutions)

/-- A range of substitutions. -/
structure Chunk where
  start : Nat
  stop : Nat
deriving DecidableEq, Repr

/-- How many chunks of a size cover the substitutions below a total; a size of zero counts as
one. -/
def chunkCount (size total : Nat) : Nat :=
  (total + max size 1 - 1) / max size 1

/-- Cuts the substitutions below a total into chunks of a size. -/
def chunks (size total : Nat) : List Chunk :=
  (List.range (chunkCount size total)).map fun k =>
    ⟨k * max size 1, min total ((k + 1) * max size 1)⟩

/-- The number of substitutions of a clause that is cut into chunks of a size. The ends of the
chunks have to be 64-bit numbers, that of the last one as if it were full. -/
def ResolvedClause.substitutionsBy (chunkSize : Nat) (c : ResolvedClause) : Except Abort Nat := do
  let total ← c.substitutions.mapError Abort.ofGrounding
  if chunkCount chunkSize total * max chunkSize 1 < wordBound then .ok total
  else .error (.misuse .excessiveSum)

/-! ### Statistics -/

/-- How many substitutions came out which way. -/
structure GroundingStats where
  substitutions : Nat
  satisfied : Nat
  skipped : Nat
  /-- Those that contradict a soft clause. -/
  violated : Nat
  /-- Those that left undecided literals. -/
  produced : Nat
deriving DecidableEq, Repr, Inhabited

/-- No substitutions. -/
def GroundingStats.zero : GroundingStats :=
  ⟨0, 0, 0, 0, 0⟩

/-! ### Working through substitutions -/

/-- The statistics so far, and the contributions so far, latest first. -/
structure GroundingRun where
  stats : GroundingStats
  contributions : List Contribution

namespace GroundingRun

/-- Before the first substitution. -/
def start : GroundingRun :=
  ⟨.zero, []⟩

/-- Takes in the outcome of one substitution. -/
def record (run : GroundingRun) (c : ResolvedClause) (binding : List Nat) :
    Except GroundingError GroundingRun :=
  let stats := { run.stats with substitutions := run.stats.substitutions + 1 }
  match c.outcome binding with
  | .satisfied => .ok { run with stats := { stats with satisfied := stats.satisfied + 1 } }
  | .skipped => .ok { run with stats := { stats with skipped := stats.skipped + 1 } }
  | .clause [] =>
    if c.hard then .error (.hardClauseViolated c.index (c.describe binding))
    else .ok {
      stats := { stats with violated := stats.violated + 1 }
      contributions := .of c.index [] :: run.contributions }
  | .clause literals => .ok {
      stats := { stats with produced := stats.produced + 1 }
      contributions := .of c.index literals :: run.contributions }

/-- Works through a number of substitutions from one on. -/
def recordFrom (c : ResolvedClause) : Nat → List Nat → GroundingRun →
    Except GroundingError GroundingRun
  | 0, _, run => .ok run
  | n + 1, binding, run => do
    recordFrom c n (MixedRadix.next c.radices binding) (← run.record c binding)

/-- Works through a chunk. -/
def recordChunk (run : GroundingRun) (c : ResolvedClause) (chunk : Chunk) :
    Except GroundingError GroundingRun :=
  recordFrom c (chunk.stop - chunk.start) (MixedRadix.digits c.radices chunk.start) run

/-- Works through all substitutions of a clause in chunks. -/
def recordClause (chunkSize : Nat) (run : GroundingRun) (c : ResolvedClause) (total : Nat) :
    Except GroundingError GroundingRun :=
  (chunks chunkSize total).foldlM (fun run chunk => run.recordChunk c chunk) run

end GroundingRun

end LogicNetwork
