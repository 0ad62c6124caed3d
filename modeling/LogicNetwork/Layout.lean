/-
  Layout — which ids belong to which ground atoms.

  Every table owns a block of consecutive ids, and the blocks follow one another from id 1 in
  the order of the tables. Inside a block a tuple of constants is a mixed radix numeral, its
  digits being the numbers of the constants in their domains and the first argument counting
  least. Ids, offsets and the positional weights of the digits are 32-bit words; the size of
  a block is checked against the ids left after every argument.
-/
import LogicNetwork.GroundAtom
import LogicNetwork.MixedRadix
import LogicNetwork.Schema

namespace LogicNetwork

/-! ### Blocks -/

/-- The ids of one signature. -/
structure Block where
  signature : Signature
  /-- The domains of the argument positions. -/
  domains : List Domain
  /-- The positional weight of each argument. -/
  weights : List UInt32
  /-- The first id. -/
  first : UInt32
  /-- The number of ids. -/
  size : UInt32

namespace Block

/-- One past the last id. -/
def stop (b : Block) : UInt32 :=
  b.first + b.size

/-- The sizes of the argument domains. -/
def radices (b : Block) : List Nat :=
  b.domains.map Domain.size

/-- Whether an id belongs to the block. -/
def contains (b : Block) (id : Nat) : Bool :=
  b.first.toNat ≤ id && id < b.stop.toNat

/-- The positional weights of arguments, given the number of tuples of the arguments before
them, and the number of tuples at the end. The ids taken so far must never pass `2 ^ 31`. -/
def measure (domains : Domains) (first : Nat) :
    Nat → List String → Except Failure (List Domain × List UInt32 × Nat)
  | tuples, [] => .ok ([], [], tuples)
  | tuples, name :: rest => do
    let d ← (domains.require name).mapError Failure.domain
    let larger := tuples * d.size
    if 2147483648 < first + larger then .error (.layout (.exhausted (first + larger)))
    let (ds, weights, total) ← measure domains first larger rest
    .ok (d :: ds, UInt32.ofNat tuples :: weights, total)

/-- The block of a table that starts at an id. -/
def build (domains : Domains) (first : UInt32) (p : PredicateDecl) : Except Failure Block := do
  let (ds, weights, total) ← measure domains first.toNat 1 p.domains
  .ok ⟨p.signature, ds, weights, first, UInt32.ofNat total⟩

/-- The ids of the block that are ids of atoms, ascending. -/
def ids (b : Block) : List AtomId :=
  (List.range' b.first.toNat (b.stop.toNat - b.first.toNat)).filterMap AtomId.ofNat?

/-- The sum of the digits times their weights; absent if a digit is not below its radix. -/
def offset? : List Nat → List UInt32 → List Nat → Option UInt32
  | radix :: radices, weight :: weights, i :: indices =>
    if radix ≤ i then none
    else (offset? radices weights indices).map (UInt32.ofNat i * weight + ·)
  | _, _, _ => some 0

/-- The id of a tuple of constant numbers; absent for a tuple of the wrong length, for a number
outside its domain, and beyond the last id there is. -/
def encodeIndices (b : Block) (indices : List Nat) : Option AtomId :=
  if indices.length ≠ b.domains.length then none
  else (offset? b.radices b.weights indices).bind fun offset =>
    AtomId.ofNat? (b.first + offset).toNat

/-- The constant numbers of an id. -/
def decodeIndices (b : Block) (id : AtomId) : Except LayoutError (List Nat) :=
  if b.contains id.number then
    .ok (MixedRadix.digits b.radices (id.number - b.first.toNat))
  else .error (.outsideBlock b.signature id.number b.first.toNat b.stop.toNat)

/-- The numbers of constants in the domains of their positions, counted from `position`. -/
def lookup (signature : Signature) : Nat → List Domain → List String →
    Except LayoutError (List Nat)
  | position, d :: ds, c :: cs =>
    match d.indexOf? c with
    | none => .error (.foreignConstant signature position c d.name)
    | some i => (lookup signature (position + 1) ds cs).map (i :: ·)
  | _, _, _ => .ok []

/-- The id of a tuple of constants. -/
def encode (b : Block) (constants : List String) : Except LayoutError AtomId :=
  if constants.length ≠ b.domains.length then
    .error (.arityMismatch b.signature b.domains.length constants.length)
  else do
    let indices ← lookup b.signature 0 b.domains constants
    match b.encodeIndices indices with
    | some id => .ok id
    | none => .error (.outsideBlock b.signature 0 b.first.toNat b.stop.toNat)

/-- The constants of an id. -/
def decode (b : Block) (id : AtomId) : Except LayoutError (List String) := do
  let indices ← b.decodeIndices id
  .ok (List.zipWith Domain.symbol b.domains indices)

end Block

/-! ### Layouts -/

/-- The blocks of a theory, in order, with the declarations that they come from. -/
structure Layout where
  schema : Schema
  domains : Domains
  blocks : List Block

namespace Layout

/-- Lays blocks one after the other from an id on. -/
def buildBlocks (domains : Domains) : UInt32 → List PredicateDecl → Except Failure (List Block)
  | _, [] => .ok []
  | first, p :: rest => do
    let b ← Block.build domains first p
    (buildBlocks domains b.stop rest).map (b :: ·)

/-- The layout of a theory: its declarations have to be valid and its ground atoms to fit. -/
def build (schema : Schema) (domains : Domains) : Except Failure Layout := do
  schema.validate domains
  .ok ⟨schema, domains, ← buildBlocks domains 1 schema.tables⟩

/-- The number of ground atoms. -/
def atomCount (l : Layout) : Nat :=
  match l.blocks.getLast? with
  | some b => b.stop.toNat - 1
  | none => 0

/-- The block of a signature. -/
def block? (l : Layout) (signature : Signature) : Option Block :=
  l.blocks.find? fun b => b.signature == signature

/-- The block of a signature, which has to be declared. -/
def block (l : Layout) (signature : Signature) : Except LayoutError Block :=
  match l.block? signature with
  | some b => .ok b
  | none => .error (.unknownSignature signature)

/-- The id of a ground atom. -/
def encode (l : Layout) (signature : Signature) (constants : List String) :
    Except LayoutError AtomId := do
  (← l.block signature).encode constants

/-- The constants of an id of a signature. -/
def decode (l : Layout) (signature : Signature) (id : AtomId) :
    Except LayoutError (List String) := do
  (← l.block signature).decode id

/-- The block that an id belongs to: only the first block that ends above the id can be it. -/
def owner? (l : Layout) (id : AtomId) : Option Block :=
  (l.blocks.find? fun b => id.number < b.stop.toNat).filter fun b => b.contains id.number

/-- The ground atom of an id. -/
def decodeAtom (l : Layout) (id : AtomId) : Except LayoutError (Signature × List String) :=
  match l.owner? id with
  | none => .error (.outsideLayout id.number (l.atomCount + 1))
  | some b => (b.decode id).map fun constants => (b.signature, constants)

/-- The text of a ground atom: its symbol and its constants in parentheses. -/
def atomText (l : Layout) (id : AtomId) : Except LayoutError String :=
  (l.decodeAtom id).map fun (signature, constants) =>
    signature.symbol ++ "(" ++ ",".intercalate constants ++ ")"

end Layout

end LogicNetwork
