/-
  FactTable — what is known about the ground atoms of one signature.

  A table stores the explicit assertions only. An atom without one has the default of the
  table: false in a closed world, unknown in an open one. `get` is the view that everything
  else agrees with: the counts, the lists of ids, and what grounding sees.
-/
import Std.Data.TreeMap
import LogicNetwork.Layout

namespace LogicNetwork

/-! ### Truth values -/

/-- What the evidence says about an atom. -/
inductive TruthValue
  | true
  | false
  | unknown
deriving DecidableEq, Repr, Inhabited

namespace TruthValue

/-- The truth value of a decided atom. -/
def ofBool (b : Bool) : TruthValue :=
  if b then .true else .false

/-- The decision, if there is one. -/
def known? : TruthValue → Option Bool
  | .true => some Bool.true
  | .false => some Bool.false
  | .unknown => none

/-- The name of a truth value. -/
def text : TruthValue → String
  | .true => "True"
  | .false => "False"
  | .unknown => "Unknown"

/-- The truth value of a name. -/
def ofText? : String → Option TruthValue
  | "True" => some .true
  | "False" => some .false
  | "Unknown" => some .unknown
  | _ => none

theorem ofText?_text (v : TruthValue) : ofText? v.text = some v := by
  cases v <;> rfl

end TruthValue

/-! ### Tables -/

/-- The explicit assertions about the atoms of a block, and what holds of the others. -/
structure FactTable where
  block : Block
  closed : Bool
  explicit : Std.TreeMap AtomId TruthValue

namespace FactTable

/-- A table without assertions. -/
def empty (block : Block) (closed : Bool) : FactTable :=
  ⟨block, closed, ∅⟩

/-- The truth value of an atom without an assertion. -/
def default (t : FactTable) : TruthValue :=
  if t.closed then .false else .unknown

/-- The truth value of an atom of the block. -/
def get (t : FactTable) (id : AtomId) : TruthValue :=
  t.explicit.getD id t.default

/-- The truth value of an atom, which has to belong to the block. -/
def state (t : FactTable) (id : AtomId) : Except Misuse TruthValue :=
  if t.block.contains id.number then .ok (t.get id)
  else .error (.foreignAtom id.number t.block.signature)

/-- Asserts a truth value. -/
def set (t : FactTable) (id : AtomId) (v : TruthValue) : FactTable :=
  { t with explicit := t.explicit.insert id v }

/-- The atoms asserted to have a truth value, ascending. -/
def idsWith (t : FactTable) (v : TruthValue) : List AtomId :=
  (t.explicit.toList.filter fun entry => entry.2 == v).map Prod.fst

/-- The atoms of the block that are unknown, ascending. -/
def unknownIds (t : FactTable) : List AtomId :=
  if t.closed then t.idsWith .unknown
  else t.block.ids.filter fun id => t.get id == .unknown

/-- How many atoms of the block are true, false and unknown. -/
def counts (t : FactTable) : Nat × Nat × Nat :=
  let implicit := t.block.size.toNat - t.explicit.size
  let trues := (t.idsWith .true).length
  let falses := (t.idsWith .false).length
  let unknowns := (t.idsWith .unknown).length
  if t.closed then (trues, falses + implicit, unknowns) else (trues, falses, unknowns + implicit)

theorem get_set (t : FactTable) (id other : AtomId) (v : TruthValue) :
    (t.set id v).get other = if id = other then v else t.get other := by
  change (t.explicit.insert id v).getD other t.default = _
  rw [Std.TreeMap.getD_insert]
  by_cases h : id = other
  · simp [h]
  · rw [if_neg h, if_neg (mt Std.LawfulEqCmp.eq_of_compare h)]
    rfl

end FactTable

end LogicNetwork
