/-
  GroundAtom — ids of ground atoms, and literals over them.

  Ids start at one and have thirty-one bits, so that a literal can be shown as one signed
  number: the id for the atom itself, minus the id for its negation. Literals are ordered by
  that number.
-/
import LogicNetwork.Failure

namespace LogicNetwork

/-! ### Atoms -/

/-- The id of a ground atom. -/
structure AtomId where
  number : Nat
  pos : 0 < number
  lt : number < 2147483648
deriving DecidableEq

namespace AtomId

instance : Repr AtomId := ⟨fun id _ => repr id.number⟩

instance : Inhabited AtomId := ⟨⟨1, by decide, by decide⟩⟩

/-- The id of a number, if it is one. -/
def ofNat? (n : Nat) : Option AtomId :=
  if h : 0 < n ∧ n < 2147483648 then some ⟨n, h.1, h.2⟩ else none

/-- The text of an id. -/
def text (id : AtomId) : String :=
  "atom:" ++ toString id.number

@[ext]
theorem ext {a b : AtomId} (h : a.number = b.number) : a = b := by
  cases a; cases b; cases h; rfl

theorem number_of_ofNat? {n : Nat} {id : AtomId} (h : ofNat? n = some id) : id.number = n := by
  simp only [ofNat?] at h
  split at h
  · cases h; rfl
  · cases h

theorem ofNat?_number (id : AtomId) : ofNat? id.number = some id := by
  rw [ofNat?, dif_pos ⟨id.pos, id.lt⟩]

instance : Ord AtomId := ⟨fun a b => compare a.number b.number⟩

instance : Std.TransOrd AtomId where
  eq_swap := (inferInstance : Std.TransOrd Nat).eq_swap
  isLE_trans := (inferInstance : Std.TransOrd Nat).isLE_trans

instance : Std.LawfulEqOrd AtomId where
  compare_self := (inferInstance : Std.LawfulEqOrd Nat).compare_self
  eq_of_compare h := ext ((inferInstance : Std.LawfulEqOrd Nat).eq_of_compare h)

end AtomId

/-! ### Literals -/

/-- A ground atom or its negation. -/
structure GroundLiteral where
  atom : AtomId
  positive : Bool
deriving DecidableEq, Repr, Inhabited

namespace GroundLiteral

/-- The id with the sign of the literal. -/
def signed (l : GroundLiteral) : Int :=
  if l.positive then l.atom.number else -(l.atom.number : Int)

/-- The opposite literal. -/
def negate (l : GroundLiteral) : GroundLiteral :=
  ⟨l.atom, !l.positive⟩

/-- Whether the literal is true when its atom has the given truth value. -/
def holds (l : GroundLiteral) (truth : Bool) : Bool :=
  l.positive == truth

/-- The id, behind an exclamation mark if the literal is negative. -/
def text (l : GroundLiteral) : String :=
  if l.positive then toString l.atom.number else "!" ++ toString l.atom.number

theorem signed_injective {a b : GroundLiteral} (h : a.signed = b.signed) : a = b := by
  obtain ⟨⟨m, hm, _⟩, p⟩ := a
  obtain ⟨⟨n, hn, _⟩, q⟩ := b
  simp only [signed] at h
  cases p <;> cases q <;> simp_all <;> omega

instance : Ord GroundLiteral := ⟨fun a b => compare a.signed b.signed⟩

instance : Std.TransOrd GroundLiteral where
  eq_swap := (inferInstance : Std.TransOrd Int).eq_swap
  isLE_trans := (inferInstance : Std.TransOrd Int).isLE_trans

instance : Std.LawfulEqOrd GroundLiteral where
  compare_self := (inferInstance : Std.LawfulEqOrd Int).compare_self
  eq_of_compare h := signed_injective ((inferInstance : Std.LawfulEqOrd Int).eq_of_compare h)

end GroundLiteral

/-- Literals between the word for "or". -/
def disjunctionText (literals : List GroundLiteral) : String :=
  " v ".intercalate (literals.map GroundLiteral.text)

end LogicNetwork
