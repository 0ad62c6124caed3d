/-
  Reader — problems from documents.

  A document is read down to a limit of nested lists and tables. Fields that no reader knows
  are skipped unread, except at the top: a problem shares its top level with its schema, so
  there every field is read, known or not, and must denote something within the limit.
-/
import LogicNetwork.Document.JsonReader
import LogicNetwork.Problem.Basic

namespace LogicNetwork

/-! ### Signatures and declarations -/

/-- Reads a list of strings. -/
def readTexts : Value → Decoded (List String) :=
  Value.asList Value.asText

/-- Reads a signature. -/
def Signature.ofValue (v : Value) : Decoded Signature := do
  let r ← v.asRecord .json ["symbol", "arity"]
  return ⟨← r.required "symbol" Value.asText, ← r.required "arity" Value.asNatural⟩

/-- Reads a predicate. -/
def PredicateDecl.ofValue (v : Value) : Decoded PredicateDecl := do
  let r ← v.asRecord .json ["symbol", "args"]
  return ⟨← r.required "symbol" Value.asText, ← r.required "args" readTexts⟩

/-- Reads a function. -/
def FunctionDecl.ofValue (v : Value) : Decoded FunctionDecl := do
  let r ← v.asRecord .json ["symbol", "returns", "args"]
  return ⟨← r.required "symbol" Value.asText, ← r.required "returns" Value.asText,
    ← r.required "args" readTexts⟩

/-- Reads domains: a table from names to constants, of which a later entry replaces an earlier one
of the same name. -/
def Domains.ofValue : Value → Decoded Domains
  | .table entries => do
    let read ← entries.mapM fun (name, v) => do return (name, ← readTexts v)
    return Domains.ofList read
  | _ => .error (.expected "a table")

/-! ### Terms -/

/-- Reads a variable. -/
def Variable.ofValue (v : Value) : Decoded Variable := do
  let r ← v.asRecord .json ["name", "domain"]
  return ⟨← r.required "name" Value.asText,
    ← r.withDefault "domain" none (Value.asOptional Value.asText)⟩

/-- Fails where fewer levels of nesting are left than are needed. -/
def checkLevels (needed levels : Nat) : Decoded Unit :=
  if levels < needed then .error .tooDeep else .ok ()

/-- Reads a term, given a number of levels and a reader for the arguments of a function, which
stand three levels deeper. -/
def Term.ofTagged (levels : Nat) (argument : Value → Decoded Term) (v : Value) :
    Decoded Term := do
  let (tag, content) ← v.asTagged
  if tag = "Constant" then return .const (← content.asText)
  else if tag = "Variable" then
    checkLevels 2 levels
    return .var (← Variable.ofValue content)
  else if tag = "Function" then
    checkLevels 3 levels
    let r ← content.asRecord .json ["symbol", "args"]
    return .app (← r.required "symbol" Value.asText) (← r.required "args" (Value.asList argument))
  else .error (.unknownName tag)

/-- Reads a term within a number of levels. -/
def Term.ofValue : Nat → Value → Decoded Term
  | 0, _ => .error .tooDeep
  | 1, v => ofTagged 1 (fun _ => .error .tooDeep) v
  | 2, v => ofTagged 2 (fun _ => .error .tooDeep) v
  | levels + 3, v => ofTagged (levels + 3) (ofValue levels) v

/-! ### Clauses -/

/-- Reads a literal; its terms stand four levels deeper. -/
def Literal.ofValue (levels : Nat) (v : Value) : Decoded Literal := do
  let r ← v.asRecord .json ["positive", "atom"]
  let positive ← r.required "positive" Value.asBool
  r.required "atom" fun atom => do
    let a ← atom.asRecord .json ["predicate", "args"]
    return ⟨positive, ← a.required "predicate" Value.asText,
      ← a.required "args" (Value.asList (Term.ofValue (levels - 3)))⟩

/-- Reads a restriction: a pair of terms, two levels deeper. -/
def Restriction.ofValue (levels : Nat) (v : Value) : Decoded Restriction := do
  let (tag, content) ← v.asTagged
  let equal ← if tag = "Equal" then .ok true
    else if tag = "NotEqual" then .ok false
    else .error (.unknownName tag)
  match ← content.asList .ok with
  | [left, right] =>
    return ⟨equal, ← Term.ofValue (levels - 2) left, ← Term.ofValue (levels - 2) right⟩
  | _ => .error (.expected "two terms")

/-- Whether a word is the one for hard clauses, in any case. -/
def isHardWord (s : String) : Bool :=
  s.toList.map Char.toLower == "hard".toList

/-- Reads the weight of a clause: a finite number, or a word for hard ones. -/
def Weight.ofValue : Value → Decoded (Weight Float)
  | .text s => if isHardWord s then .ok .hard else .error (.unknownName s)
  | v => do
    let w ← v.asFloat
    if w.isFinite then .ok (.soft w) else .error (.expected "a finite weight")

/-- Reads a clause within a number of levels. -/
def Clause.ofValue (levels : Nat) (v : Value) : Decoded (Clause Float) := do
  let r ← v.asRecord .json ["index", "weight", "literals", "constraints"]
  return {
    index := ← r.required "index" Value.asNatural
    weight := ← r.required "weight" Weight.ofValue
    literals := ← r.required "literals" (Value.asList (Literal.ofValue (levels - 2)))
    restrictions := ←
      r.withDefault "constraints" [] (Value.asList (Restriction.ofValue (levels - 2))) }

/-! ### Evidence -/

/-- Reads a truth value. -/
def TruthValue.ofValue (v : Value) : Decoded TruthValue := do
  let name ← v.asName .json
  match TruthValue.ofText? name with
  | some t => .ok t
  | none => .error (.unknownName name)

/-- Reads an assertion, which is one of truth unless it says otherwise. -/
def Fact.ofValue (v : Value) : Decoded Fact := do
  let r ← v.asRecord .json ["predicate", "args", "state"]
  return ⟨← r.required "predicate" Value.asText, ← r.required "args" readTexts,
    ← r.withDefault "state" .true TruthValue.ofValue⟩

/-- Reads the value of a function. -/
def FunctionValue.ofValue (v : Value) : Decoded FunctionValue := do
  let r ← v.asRecord .json ["function", "value", "args"]
  return ⟨← r.required "function" Value.asText, ← r.required "value" Value.asText,
    ← r.required "args" readTexts⟩

/-! ### Problems -/

/-- The fields of a problem apart from its schema. -/
def problemFields : List String :=
  ["domains", "clauses", "evidence", "function_mappings", "open_world", "query"]

/-- The fields of a schema. -/
def schemaFields : List String :=
  ["predicates", "functions"]

/-- Checks that a value denotes something within a number of levels. -/
def checkReadable (levels : Nat) (v : Value) : Decoded Unit :=
  match v.depth? with
  | some depth => if depth ≤ levels then .ok () else .error .tooDeep
  | none => .error (.expected "a readable value")

/-- Reads a problem within a number of levels. -/
def Problem.ofValue (levels : Nat) : Value → Decoded Problem
  | .table entries => do
    checkLevels 1 levels
    let others := entries.filter fun entry => !problemFields.contains entry.1
    others.forM fun entry => checkReadable (levels - 1) entry.2
    let r ← (Value.table entries).asRecord .json (problemFields ++ schemaFields)
    return {
      domains := ← r.required "domains" Domains.ofValue
      schema := {
        predicates := ← r.withDefault "predicates" [] (Value.asList PredicateDecl.ofValue)
        functions := ← r.withDefault "functions" [] (Value.asList FunctionDecl.ofValue) }
      clauses := ← r.withDefault "clauses" [] (Value.asList (Clause.ofValue (levels - 2)))
      facts := ← r.withDefault "evidence" [] (Value.asList Fact.ofValue)
      values := ← r.withDefault "function_mappings" [] (Value.asList FunctionValue.ofValue)
      openWorld := ← r.withDefault "open_world" [] (Value.asList Signature.ofValue)
      query := ← r.withDefault "query" [] (Value.asList Signature.ofValue) }
  | _ => .error (.expected "a table")

/-- How many lists and tables a problem file may nest. -/
def nestingLimit : Nat := 127

/-- Reads a problem from a tree; `path` is for messages. -/
def Problem.ofTree (path : String) (v : Value) : Except ProblemError Problem :=
  (Problem.ofValue nestingLimit v).mapError fun cause => .malformed path (.decode cause)

/-- Reads the text of a problem file; `path` is for messages. -/
def Problem.ofText (path text : String) : Except ProblemError Problem :=
  match Value.ofJson? text with
  | none => .error (.malformed path .malformed)
  | some v => Problem.ofTree path v

end LogicNetwork
