import LogicNetwork.Proofs.Document.Trees
import LogicNetwork.Proofs.Problem.Decoding

/-!
# The trees of problems

The trees that problems are written as consist of texts, truth values, natural numbers in range and
weights.  A property of trees that passes from the parts of lists and tables to the whole
(`Value.IsCompositional`) is therefore one of the tree of a problem as soon as the weights of its
clauses have it (`Value.IsCompositional.ofProblem`).

This is used twice.  The tree of a problem is within some number of levels
(`Problem.exists_isWithin_toValue`), and JSON can say it if it gives back the digits of the weights
(`Problem.isPlain_toValue`).
-/

namespace LogicNetwork

/-- Whether a property is one of all texts, truth values and words, and passes from the parts of
lists and tables to the whole. -/
structure Value.IsCompositional (P : Value → Prop) : Prop where
  text (s : String) : P (.text s)
  bool (b : Bool) : P (.bool b)
  word {n : Nat} (hn : n < wordBound) : P (.integer n)
  list {items : List Value} (h : ∀ v ∈ items, P v) : P (.list items)
  table {entries : List (String × Value)} (h : ∀ e ∈ entries, P e.2) : P (.table entries)

namespace Value.IsCompositional

variable {P : Value → Prop}

/-! ### Lists of data -/

theorem ofMap (hP : IsCompositional P) {β : Type} {write : β → Value} {xs : List β}
    (h : ∀ x ∈ xs, P (write x)) : P (.list (xs.map write)) :=
  hP.list (List.forall_mem_map.mpr h)

theorem ofTexts (hP : IsCompositional P) (items : List String) : P (textList items) :=
  hP.ofMap fun s _ => hP.text s

/-! ### Terms and clauses -/

theorem ofVariable (hP : IsCompositional P) (v : Variable) : P v.toValue := by
  obtain ⟨name, domain⟩ := v
  cases domain with
  | none => exact hP.table (by simp [hP.text])
  | some d => exact hP.table (by simp [hP.text])

mutual

theorem ofTerm (hP : IsCompositional P) : (t : Term) → P t.toValue
  | .const c => hP.table (by simp [hP.text])
  | .var v => hP.table (by simp [hP.ofVariable v])
  | .app f as => by
    have hargs : P (.list (Term.toValues as)) := hP.list (ofTerms hP as)
    have hcall : P (.table [("symbol", .text f), ("args", .list (Term.toValues as))]) :=
      hP.table (by simp [hP.text, hargs])
    exact hP.table (by simp [hcall])

theorem ofTerms (hP : IsCompositional P) : (as : List Term) → ∀ v ∈ Term.toValues as, P v
  | [] => fun _ hv => nomatch hv
  | a :: as => List.forall_mem_cons.mpr ⟨ofTerm hP a, ofTerms hP as⟩

end

theorem ofLiteral (hP : IsCompositional P) (l : Literal) : P l.toValue := by
  have hargs : P (.list (Term.toValues l.arguments)) := hP.list (hP.ofTerms l.arguments)
  have hatom : P (.table [("predicate", .text l.predicate),
      ("args", .list (Term.toValues l.arguments))]) := hP.table (by simp [hP.text, hargs])
  exact hP.table (by simp [hP.bool, hatom])

theorem ofRestriction (hP : IsCompositional P) (r : Restriction) : P r.toValue := by
  have hpair : P (.list [r.left.toValue, r.right.toValue]) := hP.list (by simp [hP.ofTerm])
  exact hP.table (by simp [hpair])

theorem ofClause (hP : IsCompositional P) {c : Clause Float} (hindex : c.index < wordBound)
    (hweight : P c.weight.toValue) : P c.toValue := by
  have hliterals : P (.list (c.literals.map Literal.toValue)) :=
    hP.ofMap fun l _ => hP.ofLiteral l
  have hrestrictions : P (.list (c.restrictions.map Restriction.toValue)) :=
    hP.ofMap fun r _ => hP.ofRestriction r
  refine hP.table ?_
  rw [List.forall_mem_append]
  constructor
  · simp [hP.word hindex, hweight, hliterals]
  · split_ifs
    · simp
    · simp [hrestrictions]

/-! ### Problems -/

theorem ofSignature (hP : IsCompositional P) {s : Signature} (h : s.arity < wordBound) :
    P s.toValue :=
  hP.table (by simp [hP.text, hP.word h])

theorem ofDomains (hP : IsCompositional P) (ds : Domains) : P ds.toValue :=
  hP.table (List.forall_mem_map.mpr fun d _ => hP.ofTexts d.constants.toList)

/-- What passes from parts to the whole and is a property of the weights is one of the tree of a
problem in range. -/
theorem ofProblem (hP : IsCompositional P) {p : Problem} (hrange : p.IsInRange)
    (hweights : ∀ c ∈ p.clauses, P c.weight.toValue) : P p.toValue := by
  have hpredicates : P (.list (p.schema.predicates.map PredicateDecl.toValue)) :=
    hP.ofMap fun d _ => hP.table (by simp [hP.text, hP.ofTexts])
  have hfunctions : P (.list (p.schema.functions.map FunctionDecl.toValue)) :=
    hP.ofMap fun f _ => hP.table (by simp [hP.text, hP.ofTexts])
  have hclauses : P (.list (p.clauses.map Clause.toValue)) :=
    hP.ofMap fun c hc => hP.ofClause (hrange.clauses c hc).index_lt (hweights c hc)
  have hfacts : P (.list (p.facts.map Fact.toValue)) :=
    hP.ofMap fun f _ => hP.table (by simp [hP.text, hP.ofTexts])
  have hvalues : P (.list (p.values.map FunctionValue.toValue)) :=
    hP.ofMap fun f _ => hP.table (by simp [hP.text, hP.ofTexts])
  have hopenWorld : P (.list (p.openWorld.map Signature.toValue)) :=
    hP.ofMap fun s hs => hP.ofSignature (hrange.openWorld s hs)
  have hquery : P (.list (p.query.map Signature.toValue)) :=
    hP.ofMap fun s hs => hP.ofSignature (hrange.query s hs)
  exact hP.table (by simp [hP.ofDomains, hpredicates, hfunctions, hclauses, hfacts, hvalues,
    hopenWorld, hquery])

end Value.IsCompositional

/-! ### Depth and text -/

theorem Value.isCompositional_exists_isWithin :
    Value.IsCompositional fun v => ∃ n, v.IsWithin n where
  text s := ⟨0, isWithin_text s 0⟩
  bool b := ⟨0, isWithin_bool b 0⟩
  word {n} _ := ⟨0, isWithin_integer n 0⟩
  list h := exists_isWithin_list h
  table h := exists_isWithin_table h

theorem Value.isCompositional_isPlain : Value.IsCompositional Value.IsPlain where
  text := .text
  bool := .bool
  word hn := .integer hn
  list h := .list h
  table h := .table h

/-- The tree of a problem is nested to some depth. -/
theorem Problem.exists_isWithin_toValue {p : Problem} (hrange : p.IsInRange) :
    ∃ n, p.toValue.IsWithin n := by
  refine Value.isCompositional_exists_isWithin.ofProblem hrange fun c _ => ?_
  cases c.weight with
  | hard => exact ⟨0, Value.isWithin_text _ 0⟩
  | soft x => exact ⟨0, Value.isWithin_float x 0⟩

/-- Whether a weight is read from the digits that it is written with. -/
def Weight.ReadsBack (w : Weight Float) : Prop :=
  ∀ x, w = .soft x → Json.number? (FloatStyle.json.write x).toList = some (.float x, [])

/-- JSON can say the tree of a problem of which every weight is read from its own digits. -/
theorem Problem.isPlain_toValue {p : Problem} (hrange : p.IsInRange)
    (hweights : ∀ c ∈ p.clauses, c.weight.ReadsBack) : p.toValue.IsPlain := by
  refine Value.isCompositional_isPlain.ofProblem hrange fun c hc => ?_
  have hfinite := (hrange.clauses c hc).isFinite
  have hread := hweights c hc
  cases hweight : c.weight with
  | hard => exact .text _
  | soft x => exact .float (hfinite x hweight) (hread x hweight)

end LogicNetwork
