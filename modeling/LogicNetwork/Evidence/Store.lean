/-
  Store — the evidence of a theory.

  One fact table for each block of the layout, one function table for each function. Facts are
  asserted one after the other, and a later one overrides an earlier one about the same atom.
  Giving a function a value writes the table of the function and then asserts the atom of its
  auxiliary predicate. An operation that fails gives no new store.
-/
import LogicNetwork.Evidence.FactTable
import LogicNetwork.Evidence.FunctionTable

namespace LogicNetwork

/-! ### Assertions -/

/-- An assertion about a ground atom. -/
structure Fact where
  predicate : String
  arguments : List String
  state : TruthValue
deriving DecidableEq, Repr

/-- The signature of the atom of a fact. -/
def Fact.signature (f : Fact) : Signature :=
  ⟨f.predicate, f.arguments.length⟩

/-- The value of a function at a tuple of arguments. -/
structure FunctionValue where
  function : String
  value : String
  arguments : List String
deriving DecidableEq, Repr

/-- The signature of the function of a value. -/
def FunctionValue.signature (f : FunctionValue) : Signature :=
  ⟨f.function, f.arguments.length⟩

/-- Which signatures are taken as open. Every other one is closed, which is also all that
asking for it brings: a query signature stays open. -/
structure Assumptions where
  query : List Signature
  openWorld : List Signature
  closedWorld : List Signature
deriving Repr

/-! ### Stores -/

/-- The evidence of a theory. -/
structure Evidence where
  layout : Layout
  /-- The fact tables, in the order of the blocks. -/
  tables : List FactTable
  functions : List FunctionTable

namespace Evidence

/-- The fact table of a signature. -/
def table? (e : Evidence) (s : Signature) : Option FactTable :=
  e.tables.find? fun t => t.block.signature == s

/-- The fact table of a signature, which has to be declared. -/
def table (e : Evidence) (s : Signature) : Except EvidenceError FactTable :=
  match e.table? s with
  | some t => .ok t
  | none => .error (.unknownSignature s)

/-- The fact table of a signature, provided that the id belongs to it. -/
def tableOf (e : Evidence) (s : Signature) (id : AtomId) : Except EvidenceError FactTable := do
  let t ← e.table s
  if t.block.contains id.number then .ok t
  else .error (.layout (.outsideBlock s id.number t.block.first.toNat t.block.stop.toNat))

/-- The truth value of an atom of a signature. -/
def get (e : Evidence) (s : Signature) (id : AtomId) : Except EvidenceError TruthValue :=
  (e.tableOf s id).map fun t => t.get id

/-- The truth value of any atom of the layout. -/
def state (e : Evidence) (id : AtomId) : Except Misuse TruthValue :=
  match e.tables.find? fun t => id.number < t.block.stop.toNat with
  | some t =>
    if t.block.contains id.number then .ok (t.get id) else .error (.outsideLayout id.number)
  | none => .error (.outsideLayout id.number)

/-- Asserts the truth value of an atom of a signature. -/
def set (e : Evidence) (s : Signature) (id : AtomId) (v : TruthValue) :
    Except EvidenceError Evidence := do
  let _ ← e.tableOf s id
  .ok { e with tables := e.tables.map fun t => if t.block.signature = s then t.set id v else t }

/-- Asserts the truth value of an atom given by its constants. -/
def assert (e : Evidence) (s : Signature) (constants : List String) (v : TruthValue) :
    Except EvidenceError (AtomId × Evidence) := do
  let id ← (e.layout.encode s constants).mapError EvidenceError.layout
  .ok (id, ← e.set s id v)

/-- The table of a function. -/
def function? (e : Evidence) (s : Signature) : Option FunctionTable :=
  e.functions.find? fun t => t.signature == s

/-- Puts a table in the place of the one of its function. -/
def putFunction (e : Evidence) (t : FunctionTable) : Evidence :=
  { e with functions := e.functions.map fun u => if u.signature = t.signature then t else u }

/-- Records the value of a function in its table, and then asserts the auxiliary atom that says so.
Gives the store as it is in the end, also after a failure, and how it ended. -/
def record (e : Evidence) (f : FunctionValue) : Evidence × Except EvidenceError Unit :=
  match e.function? f.signature with
  | none => (e, .error (.unknownFunction f.signature))
  | some t =>
    match t.insert f.value f.arguments with
    | .error cause => (e, .error cause)
    | .ok larger =>
      let written := e.putFunction larger
      match written.assert t.auxiliary (f.value :: f.arguments) .true with
      | .error cause => (written, .error cause)
      | .ok (_, asserted) => (asserted, .ok ())

/-- The store in which the value of a function is recorded. -/
def assign (e : Evidence) (f : FunctionValue) : Except EvidenceError Evidence :=
  let (recorded, result) := e.record f
  result.map fun _ => recorded

/-- Whether atoms of a signature are unknown by default. -/
def isOpenWorld (e : Evidence) (s : Signature) : Except EvidenceError Bool :=
  (e.table s).map fun t => !t.closed

/-! ### Building a store -/

/-- A store without assertions under the given assumptions, which may only name declared
signatures as query or open. -/
def unasserted (layout : Layout) (assumptions : Assumptions) : Except LayoutError Evidence := do
  (assumptions.query ++ assumptions.openWorld).forM fun s => (layout.block s).map fun _ => ()
  let isOpen (s : Signature) : Bool :=
    assumptions.query.contains s || assumptions.openWorld.contains s
  .ok {
    layout
    tables := layout.blocks.map fun b => .empty b !(isOpen b.signature)
    functions := layout.schema.functions.map (FunctionTable.empty layout.domains) }

/-- The store of a list of facts and then a list of function values. -/
def build (layout : Layout) (assumptions : Assumptions) (facts : List Fact)
    (values : List FunctionValue) : Except Failure Evidence := do
  let start ← (unasserted layout assumptions).mapError Failure.layout
  let asserted ← facts.foldlM (fun e f => do
    let (_, e) ← (e.assert f.signature f.arguments f.state).mapError Failure.evidence
    .ok e) start
  values.foldlM (fun e f => (e.assign f).mapError Failure.evidence) asserted

end Evidence

end LogicNetwork
