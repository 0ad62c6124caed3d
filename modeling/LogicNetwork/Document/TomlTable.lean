/-
  TomlTable — how the lines of a TOML document build one tree.

  Headers and dotted keys name tables by paths. A table may be named on the way to a deeper one
  before its own header comes, but no table is defined twice, and a key never extends what a
  header has defined, nor a header what dotted keys have. `Toml.Node` remembers of each table
  how it came about, which is all that these rules need.
-/
import LogicNetwork.Document.Value

namespace LogicNetwork.Toml

/-- How a table came about. -/
inductive Origin
  /-- It has its own header, or is the document. -/
  | header
  /-- A header names a deeper table. -/
  | passedByHeader
  /-- A dotted key names it. -/
  | dottedKey
deriving DecidableEq, Repr

/-- A part of a document under construction. -/
inductive Node
  /-- A finished value. -/
  | leaf (value : Value)
  | table (origin : Origin) (entries : List (String × Node))
  /-- The tables of one array header, the latest first. -/
  | tables (latest : List (String × Node)) (earlier : List (List (String × Node)))

/-- The entries of a table under construction. -/
abbrev Entries := List (String × Node)

/-- The node of a name. -/
def Entries.find? (entries : Entries) (name : String) : Option Node :=
  (List.find? (fun entry => entry.1 == name) entries).map Prod.snd

/-- Sets the node of a name, in its place if it has one. -/
def Entries.put (entries : Entries) (name : String) (node : Node) : Entries :=
  if entries.any fun entry => entry.1 == name then
    entries.map fun entry => if entry.1 == name then (name, node) else entry
  else entries ++ [(name, node)]

/-! ### Headers -/

/-- Defines the table of a header, which must not be defined before. -/
def defineTable (entries : Entries) (name : String) : Option Entries :=
  match entries.find? name with
  | none => some (entries.put name (.table .header []))
  | some (.table .passedByHeader inner) => some (entries.put name (.table .header inner))
  | some _ => none

/-- Appends a table to the array of an array header. -/
def appendTable (entries : Entries) (name : String) : Option Entries :=
  match entries.find? name with
  | none => some (entries.put name (.tables [] []))
  | some (.tables latest earlier) => some (entries.put name (.tables [] (latest :: earlier)))
  | some _ => none

/-- Follows the path of a header and changes the table at its end. Tables on the way that do not
exist yet come into being; of an array of tables the latest is meant. -/
def alongHeader (change : Entries → Option Entries) : List String → Entries → Option Entries
  | [], entries => change entries
  | name :: rest, entries =>
    match entries.find? name with
    | none => (alongHeader change rest []).map fun inner =>
        entries.put name (.table .passedByHeader inner)
    | some (.table origin inner) => (alongHeader change rest inner).map fun inner =>
        entries.put name (.table origin inner)
    | some (.tables latest earlier) => (alongHeader change rest latest).map fun latest =>
        entries.put name (.tables latest earlier)
    | some (.leaf _) => none

/-! ### Keys -/

/-- Adds a value under a dotted key to a table that came about in the given way. A key without
dots belongs into a table that no dotted key has made, the last part of a dotted one into a
table that only dotted keys have made. -/
def insertKey (value : Node) (isDotted : Bool) (origin : Origin) : List String → Entries →
    Option Entries
  | [], _ => none
  | [name], entries =>
    if isDotted != decide (origin = .dottedKey) then none
    else match entries.find? name with
      | none => some (entries.put name value)
      | some _ => none
  | name :: rest, entries =>
    match entries.find? name with
    | none => (insertKey value true .dottedKey rest []).map fun inner =>
        entries.put name (.table .dottedKey inner)
    | some (.table .header _) => none
    | some (.table origin inner) => (insertKey value true origin rest inner).map fun inner =>
        entries.put name (.table origin inner)
    | some (.tables latest earlier) =>
      (insertKey value true .header rest latest).map fun latest =>
        entries.put name (.tables latest earlier)
    | some (.leaf _) => none

/-! ### Finished documents -/

mutual

/-- The value of a node. -/
def Node.toValue : Node → Value
  | .leaf v => v
  | .table _ entries => .table (entriesToValue entries)
  | .tables latest earlier =>
    .list ((Value.table (entriesToValue latest) :: tablesToValues earlier).reverse)

/-- The entries of a table. -/
def entriesToValue : List (String × Node) → List (String × Value)
  | [] => []
  | (name, node) :: rest => (name, node.toValue) :: entriesToValue rest

/-- The tables of an array. -/
def tablesToValues : List (List (String × Node)) → List Value
  | [] => []
  | entries :: rest => .table (entriesToValue entries) :: tablesToValues rest

end

end LogicNetwork.Toml
