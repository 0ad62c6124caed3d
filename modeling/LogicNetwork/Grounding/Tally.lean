/-
  Tally — merging equal ground clauses.

  A ground clause that survives simplification is a contribution of its clause to a set of
  literals. A negated unit clause contributes to its atom with the opposite sign. The table
  counts, for each set of literals and each clause, the contributions of either sign in 32-bit
  words; the order in which they arrive leaves no trace in it. Their difference is the
  frequency of the clause.

  Here words wrap, as in a build without overflow checks. `ResolvedClause.substitutionsBy`
  follows a build with them, where the end of a chunk beyond 64 bits is a misuse.
-/
import Std.Data.TreeMap
import LogicNetwork.GroundAtom

namespace LogicNetwork

/-! ### Contributions -/

/-- One surviving ground clause. -/
structure Contribution where
  literals : List GroundLiteral
  clause : Nat
  /-- Whether it is the disjunction of the literals, and not the negation of a single one. -/
  positive : Bool
deriving DecidableEq, Repr

/-- The contribution of ground literals: a single negative literal counts against its atom. -/
def Contribution.of (clause : Nat) : List GroundLiteral → Contribution
  | [l] => if l.positive then ⟨[l], clause, true⟩ else ⟨[l.negate], clause, false⟩
  | literals => ⟨literals, clause, true⟩

/-! ### Tallies -/

/-- The contributions of one clause to one set of literals. -/
structure Tally where
  plus : UInt32
  minus : UInt32
deriving DecidableEq, Repr, Inhabited

namespace Tally

/-- Counts a contribution; after `2 ^ 32` of them a word is zero again. -/
def add (t : Tally) (positive : Bool) : Tally :=
  if positive then { t with plus := t.plus + 1 } else { t with minus := t.minus + 1 }

/-- The surplus of positive contributions, as a signed 32-bit number: the words are read as signed
ones, and their difference wraps. -/
def frequency (t : Tally) : Int :=
  (t.plus.toInt32 - t.minus.toInt32).toInt

end Tally

/-- The contributions to every set of literals, by clause. -/
abbrev TallyTable := Std.TreeMap (List GroundLiteral) (Std.TreeMap Nat Tally)

namespace TallyTable

/-- Counts a contribution. -/
def add (t : TallyTable) (c : Contribution) : TallyTable :=
  t.alter c.literals fun tallies =>
    some ((tallies.getD ∅).alter c.clause fun tally => some ((tally.getD ⟨0, 0⟩).add c.positive))

/-- The table of a list of contributions. -/
def ofList (contributions : List Contribution) : TallyTable :=
  contributions.foldl add ∅

/-- The sets of literals in ascending order, each with its clauses in ascending order. -/
def entries (t : TallyTable) : List (List GroundLiteral × List (Nat × Tally)) :=
  t.toList.map fun (literals, tallies) => (literals, tallies.toList)

end TallyTable

end LogicNetwork
