import LogicNetwork.Grounding.Resolve
import LogicNetwork.Proofs.Evidence.Writes
import LogicNetwork.Proofs.Grounding.LiteralSets

/-!
# Clauses over the names of constants

What a clause says under a substitution, without domains, numbers or slots: variables stand for the
names that the substitution gives them, terms are evaluated from the inside out, functions by the
values that are recorded for them (`FunctionTable.recorded`) or else by computation, and constants
are compared as strings.  A literal is looked up in the evidence by its constants
(`Literal.verdict`), and the verdicts, in order, give the outcome (`Outcome.ofVerdicts`).

Judging resolved literals one after the other gives the same outcome as their verdicts
(`ResolvedClause.judgeAll_eq`).
-/

namespace LogicNetwork

/-! ### Terms -/

/-- The names of the constants that variables stand for. -/
abbrev Substitution := List (String × String)

/-- The name of the constant that a variable stands for. -/
def Substitution.symbol? (σ : Substitution) (name : String) : Option String :=
  (σ.find? fun entry => entry.1 == name).map Prod.snd

namespace FunctionTable

/-- The recorded values, each with the names of its arguments before it. -/
def recorded (t : FunctionTable) : List (List String × String) :=
  t.values.toList.map fun entry =>
    (List.zipWith Domain.symbol t.domains entry.1, t.result.symbol entry.2)

/-- The recorded value at arguments. -/
def symbol? (t : FunctionTable) (arguments : List String) : Option String :=
  (t.recorded.find? fun entry => entry.1 == arguments).map Prod.snd

end FunctionTable

namespace Term

mutual

/-- The name of the constant that a term denotes; absent where a function is undefined. -/
def symbol? (e : Evidence) (b : Builtins) (σ : Substitution) : Term → Option String
  | const c => some c
  | var v => σ.symbol? v.name
  | app f as => do
    let symbols ← symbols? e b σ as
    match e.function? ⟨f, as.length⟩ with
    | some t => t.symbol? symbols
    | none => (b.function? ⟨f, as.length⟩).bind fun g => g symbols

/-- The names of the constants that terms denote. -/
def symbols? (e : Evidence) (b : Builtins) (σ : Substitution) : List Term → Option (List String)
  | [] => some []
  | a :: as => do
    let s ← symbol? e b σ a
    (symbols? e b σ as).map (s :: ·)

end

end Term

/-! ### Literals and restrictions -/

/-- What the evidence says about the atom of constants, if there is one. -/
def Evidence.lookUp (e : Evidence) (s : Signature) (constants : List String) :
    Option (AtomId × TruthValue) := do
  let id ← (e.layout.encode s constants).toOption
  (e.get s id).toOption.map fun v => (id, v)

/-- The verdict on a literal: it is looked up if its predicate is declared, and else computed. -/
def Literal.verdict (e : Evidence) (b : Builtins) (σ : Substitution) (l : Literal) : Verdict :=
  match Term.symbols? e b σ l.arguments with
  | none => .undefined
  | some symbols =>
    match e.layout.block? l.signature, b.predicate? l.signature with
    | some _, _ =>
      match e.lookUp l.signature symbols with
      | none => .undefined
      | some (_, .true) => .ofBool l.positive
      | some (_, .false) => .ofBool !l.positive
      | some (id, .unknown) => .undecided ⟨id, l.positive⟩
    | none, some test => .ofBool (test symbols == l.positive)
    | none, none => .undefined

/-- Whether a restriction is met; an undefined side meets none. -/
def Restriction.isMet (e : Evidence) (b : Builtins) (σ : Substitution) (r : Restriction) : Bool :=
  match r.left.symbol? e b σ, r.right.symbol? e b σ with
  | some c, some d => (c == d) == r.equal
  | _, _ => false

/-! ### Outcomes -/

namespace Verdict

/-- The outcome of a clause if this is the verdict on one of its literals. -/
def outcome? : Verdict → Option Outcome
  | holds => some .satisfied
  | undefined => some .skipped
  | _ => none

/-- The literal that is left. -/
def literal? : Verdict → Option GroundLiteral
  | undecided l => some l
  | _ => none

end Verdict

/-- The outcome of verdicts: the first that decides, or the set of literals that are left, unless
two of them are opposite. -/
def Outcome.ofVerdicts (verdicts : List Verdict) : Outcome :=
  match verdicts.findSome? Verdict.outcome? with
  | some o => o
  | none =>
    let left := verdicts.filterMap Verdict.literal?
    if left.any fun l => left.contains l.negate then .satisfied else .clause (orderedLiterals left)

/-- The outcome of a clause under a substitution. -/
def Clause.outcome {α : Type} (c : Clause α) (e : Evidence) (b : Builtins) (σ : Substitution) :
    Outcome :=
  if c.restrictions.all (Restriction.isMet e b σ) then
    .ofVerdicts (c.literals.map (Literal.verdict e b σ))
  else .skipped

/-! ### Judging in order -/

namespace ResolvedClause

/-- Judging literals in order finds the first verdict that decides, and collects those before it. -/
theorem judgeAll_eq_match (slots : List Denotation) (literals : List ResolvedLiteral)
    (found : List GroundLiteral) :
    judgeAll slots literals found =
      match (literals.map (ResolvedLiteral.judge slots)).findSome? Verdict.outcome? with
      | some o => o
      | none =>
        let left := ((literals.map (ResolvedLiteral.judge slots)).filterMap Verdict.literal?).foldl
          (fun found l => insertLiteral l found) found
        if hasComplement left then .satisfied else .clause left := by
  induction literals generalizing found with
  | nil => rfl
  | cons l rest ih =>
    rw [judgeAll, List.map_cons, List.findSome?_cons, List.filterMap_cons]
    cases l.judge slots with
    | holds => rfl
    | fails => exact ih found
    | undecided g => exact ih (insertLiteral g found)
    | undefined => rfl

theorem judgeAll_eq (slots : List Denotation) (literals : List ResolvedLiteral) :
    judgeAll slots literals [] =
      .ofVerdicts (literals.map (ResolvedLiteral.judge slots)) := by
  rw [judgeAll_eq_match, Outcome.ofVerdicts]
  split
  · rfl
  · dsimp only
    rw [foldl_insertLiteral_eq]
    congr 1
    rw [hasComplement_iff (isOrdered_orderedLiterals _)]
    simp only [mem_orderedLiterals, List.any_eq_true, List.contains_iff_mem]

end ResolvedClause

/-! ### Recorded values -/

namespace FunctionTable

variable {t : FunctionTable} {domains : Domains} {arguments : List String} {value : String}

theorem mem_recorded : (arguments, value) ∈ t.recorded ↔
    ∃ indices v, t.value? indices = some v ∧
      List.zipWith Domain.symbol t.domains indices = arguments ∧ t.result.symbol v = value := by
  simp only [recorded, List.mem_map, Prod.exists, Prod.mk.injEq,
    Std.HashMap.mem_toList_iff_getElem?_eq_some]
  rfl

end FunctionTable

end LogicNetwork
