/-
  Value — the tree that problem files and settings files denote.

  Two text formats are read, and both give a `Value`: scalars, lists, and tables that keep
  their entries in the order written, repeated names included, so that a reader can still
  tell a repeated field from a single one. `unreadable` stands for a value that is written
  correctly and denotes nothing: a string with half of a surrogate pair, a table with such a
  name, a number beyond the doubles. It does no harm where it is skipped and is an error where
  it is read.

  `Decoded` is the result of reading a typed datum out of a tree. The formats agree on what a
  tree says up to a `Convention`.
-/
import LogicNetwork.Number.Reading

namespace LogicNetwork

/-- A document tree. -/
inductive Value
  | null
  | bool (b : Bool)
  | integer (i : Int)
  | float (x : Float)
  | text (s : String)
  | list (items : List Value)
  | table (entries : List (String × Value))
  /-- A well-formed value without a meaning. -/
  | unreadable
deriving Inhabited

/-- Why a datum cannot be read out of a tree. -/
inductive DecodeError
  /-- The value is of another kind than the one described. -/
  | expected (what : String)
  /-- A required field is absent. -/
  | missing (field : String)
  /-- A field is given more than once. -/
  | repeated (field : String)
  /-- A name is none of the listed alternatives. -/
  | unknownName (name : String)
  /-- Lists and tables are nested beyond the reader's limit. -/
  | tooDeep
deriving DecidableEq, Repr

/-- The result of reading a typed datum. -/
abbrev Decoded (α : Type) := Except DecodeError α

namespace Value

/-! ### Depth -/

mutual

/-- How many lists and tables are nested in one another, and whether every scalar denotes
something: absent if one does not. -/
def depth? : Value → Option Nat
  | list items => (depthOfItems? items).map (· + 1)
  | table entries => (depthOfEntries? entries).map (· + 1)
  | unreadable => none
  | _ => some 0

/-- The greatest depth of a list's items. -/
def depthOfItems? : List Value → Option Nat
  | [] => some 0
  | v :: rest => match depth? v, depthOfItems? rest with
    | some a, some b => some (max a b)
    | _, _ => none

/-- The greatest depth of a table's values. -/
def depthOfEntries? : List (String × Value) → Option Nat
  | [] => some 0
  | (_, v) :: rest => match depth? v, depthOfEntries? rest with
    | some a, some b => some (max a b)
    | _, _ => none

end

/-! ### Scalars and lists -/

/-- Reads a string. -/
def asText : Value → Decoded String
  | text s => .ok s
  | _ => .error (.expected "a string")

/-- Reads a truth value. -/
def asBool : Value → Decoded Bool
  | bool b => .ok b
  | _ => .error (.expected "a truth value")

/-- Reads a 64-bit word; a fractional notation is never one. -/
def asNatural : Value → Decoded Nat
  | integer i =>
    if 0 ≤ i ∧ i < wordBound then .ok i.toNat else .error (.expected "a natural number")
  | _ => .error (.expected "a natural number")

/-- Reads a double; whole numbers are taken as the nearest double. -/
def asFloat : Value → Decoded Float
  | float x => .ok x
  | integer i => .ok (Decimal.toSignedFloat (decide (i < 0)) ⟨i.natAbs, 0⟩)
  | _ => .error (.expected "a number")

/-- Reads a list, item by item. -/
def asList {α : Type} (item : Value → Decoded α) : Value → Decoded (List α)
  | list items => items.mapM item
  | _ => .error (.expected "a list")

/-- Reads an optional datum, which `null` leaves out. -/
def asOptional {α : Type} (item : Value → Decoded α) : Value → Decoded (Option α)
  | null => .ok none
  | v => (item v).map some

end Value

/-! ### Conventions -/

/-- What a format lets stand for a datum. -/
structure Convention where
  /-- Which values stand for no contents. -/
  isVoid : Value → Bool
  /-- Whether a list that stands for a record may have more items than the record has fields. -/
  allowsSurplus : Bool

namespace Convention

/-- JSON has a null for no contents. -/
def json : Convention where
  isVoid
    | .null => true
    | _ => false
  allowsSurplus := false

/-- TOML has no null; an empty table or list stands for no contents. -/
def toml : Convention where
  isVoid
    | .table [] => true
    | .list [] => true
    | _ => false
  allowsSurplus := true

end Convention

/-! ### Alternatives -/

namespace Value

/-- The name of an alternative without contents, written as a string or as a table from the
name to what stands for no contents. -/
def asName (c : Convention) : Value → Decoded String
  | text s => .ok s
  | table [(s, v)] =>
    if c.isVoid v then .ok s else .error (.expected "an alternative without contents")
  | _ => .error (.expected "the name of an alternative")

/-- The name and contents of an alternative, written as a table of one entry. -/
def asTagged : Value → Decoded (String × Value)
  | table [entry] => .ok entry
  | _ => .error (.expected "a table of one alternative")

end Value

/-! ### Records -/

/-- The fields of a record that its reader knows, each at most once. -/
structure Record where
  fields : List (String × Value)

/-- The first name of a list that occurs again later. -/
def firstRepeated : List String → Option String
  | [] => none
  | name :: rest => if rest.contains name then some name else firstRepeated rest

/-- The known fields of a table, unknown ones skipped unread; a known field must not be repeated.
A record may also be written as the list of its first fields in order. -/
def Value.asRecord (c : Convention) (names : List String) : Value → Decoded Record
  | .table entries =>
    let known := entries.filter fun entry => names.contains entry.1
    match firstRepeated (known.map Prod.fst) with
    | some name => .error (.repeated name)
    | none => .ok ⟨known⟩
  | .list items =>
    if names.length < items.length && !c.allowsSurplus then
      .error (.expected "a record with fewer fields")
    else .ok ⟨names.zip items⟩
  | _ => .error (.expected "a table")

namespace Record

/-- The value of a field. -/
def find? (r : Record) (name : String) : Option Value :=
  (r.fields.find? fun entry => entry.1 == name).map Prod.snd

/-- Reads a field that must be present. -/
def required {α : Type} (r : Record) (name : String) (read : Value → Decoded α) : Decoded α :=
  match r.find? name with
  | some v => read v
  | none => .error (.missing name)

/-- Reads a field, or takes a default where it is absent. -/
def withDefault {α : Type} (r : Record) (name : String) (default : α)
    (read : Value → Decoded α) : Decoded α :=
  match r.find? name with
  | some v => read v
  | none => .ok default

end Record

end LogicNetwork
