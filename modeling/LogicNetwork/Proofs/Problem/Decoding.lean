import LogicNetwork.Problem.Reader
import LogicNetwork.Problem.Writer
import LogicNetwork.Proofs.Document.Nesting
import LogicNetwork.Proofs.Fallible

/-!
# Problems from their own trees

Reading undoes writing, datum by datum: each reader gives back what its writer made a tree of.  A
term is read back within as many levels as its tree nests (`Term.ofValue_toValue`), and from there
this goes up through literals, restrictions and clauses to a whole problem
(`Problem.ofValue_toValue`).  Numbers have to be in range: indices and arities fit in a word, and
weights are finite (`Problem.IsInRange`).
-/

namespace LogicNetwork

/-! ### Lists and fields -/

theorem Value.asList_map {β : Type} {read : Value → Decoded β} {write : β → Value} {xs : List β}
    (h : ∀ x ∈ xs, read (write x) = .ok x) : (Value.list (xs.map write)).asList read = .ok xs := by
  show (xs.map write).mapM read = .ok xs
  rw [List.mapM_map]
  exact (Except.mapM_eq_ok_map (g := id) h).trans (congrArg Except.ok xs.map_id)

theorem Value.asNatural_integer {n : Nat} (hn : n < wordBound) :
    (Value.integer n).asNatural = .ok n := by
  simp [asNatural, hn]

theorem Record.required_eq {β : Type} {r : Record} {name : String} {v : Value}
    (h : r.find? name = some v) (read : Value → Decoded β) : r.required name read = read v := by
  rw [required, h]

theorem Record.withDefault_eq {β : Type} {r : Record} {name : String} {v : Value}
    (h : r.find? name = some v) (default : β) (read : Value → Decoded β) :
    r.withDefault name default read = read v := by
  rw [withDefault, h]

theorem readTexts_textList (items : List String) : readTexts (textList items) = .ok items :=
  Value.asList_map fun _ _ => rfl

/-! ### Signatures, declarations and evidence -/

theorem Signature.ofValue_toValue {s : Signature} (h : s.arity < wordBound) :
    Signature.ofValue s.toValue = .ok s := by
  have hrecord : s.toValue.asRecord .json ["symbol", "arity"] =
      .ok ⟨[("symbol", .text s.symbol), ("arity", .integer s.arity)]⟩ := rfl
  refine Except.bind_eq_ok_iff.mpr ⟨_, hrecord, Except.bind_eq_ok_iff.mpr ⟨s.symbol, rfl, ?_⟩⟩
  refine Except.bind_eq_ok_iff.mpr ⟨s.arity, ?_, rfl⟩
  rw [Record.required_eq rfl, Value.asNatural_integer h]

theorem PredicateDecl.ofValue_toValue (p : PredicateDecl) :
    PredicateDecl.ofValue p.toValue = .ok p := by
  have hread : PredicateDecl.ofValue p.toValue =
      (readTexts (textList p.domains)).map (PredicateDecl.mk p.symbol) := rfl
  rw [hread, readTexts_textList]
  rfl

theorem FunctionDecl.ofValue_toValue (f : FunctionDecl) :
    FunctionDecl.ofValue f.toValue = .ok f := by
  have hread : FunctionDecl.ofValue f.toValue =
      (readTexts (textList f.domains)).map (FunctionDecl.mk f.symbol f.result) := rfl
  rw [hread, readTexts_textList]
  rfl

theorem TruthValue.ofValue_text (t : TruthValue) : TruthValue.ofValue (.text t.text) = .ok t := by
  simp only [ofValue, Value.asName, bind, Except.bind, ofText?_text]

theorem Fact.ofValue_toValue (f : Fact) : Fact.ofValue f.toValue = .ok f := by
  have hread : Fact.ofValue f.toValue = (do
      let arguments ← readTexts (textList f.arguments)
      let state ← TruthValue.ofValue (.text f.state.text)
      return ⟨f.predicate, arguments, state⟩) := rfl
  rw [hread, readTexts_textList, TruthValue.ofValue_text]
  rfl

theorem FunctionValue.ofValue_toValue (f : FunctionValue) :
    FunctionValue.ofValue f.toValue = .ok f := by
  have hread : FunctionValue.ofValue f.toValue =
      (readTexts (textList f.arguments)).map (FunctionValue.mk f.function f.value) := rfl
  rw [hread, readTexts_textList]
  rfl

/-! ### Domains -/

theorem Domain.ofList_constants (d : Domain) : Domain.ofList d.name d.constants.toList = d := by
  apply Domain.ext
  · rfl
  · show (distinct d.constants.toList).toArray = d.constants
    rw [distinct_eq_self d.nodup, Array.toArray_toList]

/-- A domain whose name comes last is put last. -/
theorem insertByName_of_lt {d : Domain} {ds : List Domain} (h : ∀ e ∈ ds, e.name < d.name) :
    insertByName d ds = ds ++ [d] := by
  induction ds with
  | nil => rfl
  | cons e ds ih =>
    rw [List.forall_mem_cons] at h
    have hnot : ¬ d.name < e.name := fun hlt => String.lt_irrefl _ (String.lt_trans hlt h.1)
    have hne : ¬ d.name = e.name := by
      intro heq
      rw [heq] at h
      exact String.lt_irrefl _ h.1
    rw [insertByName, if_neg hnot, if_neg hne, ih h.2, List.cons_append]

theorem Domains.ext {a b : Domains} (h : a.all = b.all) : a = b := by
  obtain ⟨all, _⟩ := a
  obtain rfl : all = b.all := h
  rfl

/-- Domains are made again from their names and constants. -/
theorem Domains.ofList_all (ds : Domains) :
    Domains.ofList (ds.all.map fun d => (d.name, d.constants.toList)) = ds := by
  -- Names ascend, so that each domain goes behind those that are already put back.
  have hfold : ∀ (rest : List Domain) (before : Domains),
      (before.all ++ rest).Pairwise (fun a b => a.name < b.name) →
      ((rest.map fun d => (d.name, d.constants.toList)).foldl
        (fun ds entry => ds.insert (.ofList entry.1 entry.2)) before).all = before.all ++ rest := by
    intro rest
    induction rest with
    | nil =>
      intro before _
      rw [List.append_nil]
      rfl
    | cons d rest ih =>
      intro before hsorted
      have hinsert : (before.insert (Domain.ofList d.name d.constants.toList)).all =
          before.all ++ [d] := by
        rw [d.ofList_constants]
        refine insertByName_of_lt fun e he => ?_
        exact (List.pairwise_append.mp hsorted).2.2 e he d List.mem_cons_self
      rw [List.append_cons, ← hinsert] at hsorted ⊢
      exact ih _ hsorted
  exact Domains.ext (hfold ds.all Domains.empty ds.sorted)

theorem Domains.ofValue_toValue (ds : Domains) : Domains.ofValue ds.toValue = .ok ds := by
  let write (d : Domain) : String × Value := (d.name, textList d.constants.toList)
  let read (entry : String × Value) : Decoded (String × List String) := do
    return (entry.1, ← readTexts entry.2)
  have hread : Domains.ofValue ds.toValue = ((ds.all.map write).mapM read).map Domains.ofList := rfl
  have hentries : (ds.all.map write).mapM read =
      .ok (ds.all.map fun d => (d.name, d.constants.toList)) := by
    rw [List.mapM_map]
    refine Except.mapM_eq_ok_map fun d _ => ?_
    show (readTexts (textList d.constants.toList)).map (fun texts => (d.name, texts)) = _
    rw [readTexts_textList]
    rfl
  rw [hread, hentries]
  exact congrArg Except.ok ds.ofList_all

/-! ### Terms -/

theorem Variable.ofValue_toValue (v : Variable) : Variable.ofValue v.toValue = .ok v := by
  obtain ⟨name, domain⟩ := v
  cases domain with
  | none => rfl
  | some d => rfl

theorem checkLevels_eq_ok_iff {needed levels : Nat} :
    checkLevels needed levels = .ok () ↔ needed ≤ levels := by
  unfold checkLevels
  split_ifs with hlt
  · simp [hlt]
  · simp; omega

namespace Term

variable {levels : Nat}

theorem not_isWithin_zero (t : Term) : ¬ t.toValue.IsWithin 0 := by
  cases t <;> exact Value.not_isWithin_table_zero

theorem toValues_eq_map (as : List Term) : toValues as = as.map toValue := by
  induction as with
  | nil => rfl
  | cons a as ih => rw [toValues, ih, List.map_cons]

/-- The arguments of a function are three levels deeper than the term. -/
theorem isWithin_app {f : String} {as : List Term} :
    (app f as).toValue.IsWithin (levels + 3) ↔ ∀ a ∈ as, a.toValue.IsWithin levels := by
  simp [toValue, toValues_eq_map]

theorem ofTagged_toValue {argument : Value → Decoded Term} {t : Term}
    (hlevels : t.toValue.IsWithin levels)
    (hargument : ∀ a : Term, a.toValue.IsWithin (levels - 3) → argument a.toValue = .ok a) :
    ofTagged levels argument t.toValue = .ok t := by
  cases t with
  | const c => rfl
  | var v =>
    have hneeded : 2 ≤ levels := hlevels.lt_of_not (by simp [toValue, Variable.toValue])
    have hread : ofTagged levels argument (var v).toValue = (do
        checkLevels 2 levels
        return .var (← Variable.ofValue v.toValue)) := rfl
    rw [hread, checkLevels_eq_ok_iff.mpr hneeded, v.ofValue_toValue]
    rfl
  | app f as =>
    have hneeded : 3 ≤ levels := hlevels.lt_of_not (by simp [toValue])
    obtain ⟨n, rfl⟩ := Nat.exists_eq_add_of_le' hneeded
    have hread : ofTagged (n + 3) argument (app f as).toValue = (do
        checkLevels 3 (n + 3)
        return .app f (← (Value.list (toValues as)).asList argument)) := rfl
    have harguments : (Value.list (toValues as)).asList argument = .ok as := by
      rw [toValues_eq_map]
      exact Value.asList_map fun a ha => hargument a (isWithin_app.mp hlevels a ha)
    rw [hread, checkLevels_eq_ok_iff.mpr hneeded, harguments]
    rfl

/-- A term is read back within the levels that its tree has. -/
theorem ofValue_toValue (levels : Nat) (t : Term) (hlevels : t.toValue.IsWithin levels) :
    Term.ofValue levels t.toValue = .ok t := by
  -- The induction is on the levels, which drop by three from a term to its arguments; below three
  -- levels no term has any.
  induction levels using Nat.strongRecOn generalizing t with
  | _ levels ih =>
    match levels with
    | 0 => exact absurd hlevels t.not_isWithin_zero
    | 1 => exact ofTagged_toValue hlevels fun a ha => absurd ha (not_isWithin_zero a)
    | 2 => exact ofTagged_toValue hlevels fun a ha => absurd ha (not_isWithin_zero a)
    | n + 3 => exact ofTagged_toValue hlevels fun a ha => ih n (by omega) a ha

theorem asList_toValues {as : List Term} (hlevels : ∀ a ∈ as, a.toValue.IsWithin levels) :
    (Value.list (toValues as)).asList (Term.ofValue levels) = .ok as := by
  rw [toValues_eq_map]
  exact Value.asList_map fun a ha => ofValue_toValue levels a (hlevels a ha)

end Term

/-! ### Clauses -/

variable {levels : Nat}

/-- The terms of a literal are three levels deeper. -/
theorem Literal.isWithin_toValue {l : Literal} :
    l.toValue.IsWithin (levels + 3) ↔ ∀ a ∈ l.arguments, a.toValue.IsWithin levels := by
  simp [toValue, Term.toValues_eq_map]

theorem Literal.ofValue_toValue {l : Literal} (hlevels : l.toValue.IsWithin levels) :
    Literal.ofValue levels l.toValue = .ok l := by
  have hneeded : 3 ≤ levels := hlevels.lt_of_not (by simp [toValue])
  obtain ⟨n, rfl⟩ := Nat.exists_eq_add_of_le' hneeded
  have hread : Literal.ofValue (n + 3) l.toValue =
      ((Value.list (Term.toValues l.arguments)).asList (Term.ofValue n)).map
        (Literal.mk l.positive l.predicate) := rfl
  rw [hread, Term.asList_toValues (isWithin_toValue.mp hlevels)]
  rfl

/-- The terms of a restriction are two levels deeper. -/
theorem Restriction.isWithin_toValue {r : Restriction} : r.toValue.IsWithin (levels + 2) ↔
    r.left.toValue.IsWithin levels ∧ r.right.toValue.IsWithin levels := by
  simp [toValue]

theorem Restriction.ofValue_toValue {r : Restriction} (hlevels : r.toValue.IsWithin levels) :
    Restriction.ofValue levels r.toValue = .ok r := by
  have hneeded : 2 ≤ levels := hlevels.lt_of_not (by simp [toValue])
  obtain ⟨n, rfl⟩ := Nat.exists_eq_add_of_le' hneeded
  obtain ⟨hleft, hright⟩ := isWithin_toValue.mp hlevels
  have hread : Restriction.ofValue (n + 2) r.toValue = (do
      let left ← Term.ofValue n r.left.toValue
      let right ← Term.ofValue n r.right.toValue
      return ⟨r.equal, left, right⟩) := by
    obtain ⟨equal, left, right⟩ := r
    cases equal <;> rfl
  rw [hread, Term.ofValue_toValue n r.left hleft, Term.ofValue_toValue n r.right hright]
  rfl

/-- Whether a weight is a finite number or that of a hard clause. -/
def Weight.IsFinite (w : Weight Float) : Prop :=
  ∀ x, w = .soft x → x.isFinite = true

theorem Weight.ofValue_toValue {w : Weight Float} (h : w.IsFinite) :
    Weight.ofValue w.toValue = .ok w := by
  cases w with
  | hard => rfl
  | soft x =>
    show (if x.isFinite then Except.ok (soft x) else _) = _
    rw [if_pos (h x rfl)]

/-- Whether the index of a clause fits in a word and its weight is finite. -/
structure Clause.IsInRange (c : Clause Float) : Prop where
  index_lt : c.index < wordBound
  isFinite : c.weight.IsFinite

/-- The literals and the restrictions of a clause are two levels deeper. -/
theorem Clause.isWithin_toValue {c : Clause Float} : c.toValue.IsWithin (levels + 2) ↔
    (∀ l ∈ c.literals, l.toValue.IsWithin levels) ∧
      ∀ r ∈ c.restrictions, r.toValue.IsWithin levels := by
  obtain ⟨index, weight, literals, restrictions⟩ := c
  have hweight : weight.toValue.IsWithin (levels + 1) := by
    cases weight <;> simp [Weight.toValue]
  cases restrictions with
  | nil => simp [toValue, hweight]
  | cons r restrictions => simp [toValue, hweight]

theorem Clause.ofValue_toValue {c : Clause Float} (hrange : c.IsInRange)
    (hlevels : c.toValue.IsWithin levels) : Clause.ofValue levels c.toValue = .ok c := by
  have hneeded : 2 ≤ levels := hlevels.lt_of_not (by simp [toValue])
  obtain ⟨n, rfl⟩ := Nat.exists_eq_add_of_le' hneeded
  obtain ⟨hliterals, hrestrictions⟩ := isWithin_toValue.mp hlevels
  obtain ⟨index, weight, literals, restrictions⟩ := c
  have hreadLiterals : (Value.list (literals.map Literal.toValue)).asList (Literal.ofValue n) =
      .ok literals := Value.asList_map fun l hl => l.ofValue_toValue (hliterals l hl)
  have hreadRestrictions :
      (Value.list (restrictions.map Restriction.toValue)).asList (Restriction.ofValue n) =
        .ok restrictions := Value.asList_map fun r hr => r.ofValue_toValue (hrestrictions r hr)
  let fields : List (String × Value) :=
    [("index", .integer index), ("weight", weight.toValue),
      ("literals", .list (literals.map Literal.toValue))]
  -- Where there are no restrictions, the field that would hold them is left out.
  obtain ⟨r, hrecord, hindex, hweight, hfoundLiterals, hfoundRestrictions⟩ :
      ∃ r : Record, (toValue ⟨index, weight, literals, restrictions⟩).asRecord .json
          ["index", "weight", "literals", "constraints"] = .ok r ∧
        r.find? "index" = some (.integer index) ∧ r.find? "weight" = some weight.toValue ∧
        r.find? "literals" = some (.list (literals.map Literal.toValue)) ∧
        r.withDefault "constraints" [] (Value.asList (Restriction.ofValue n)) =
          .ok restrictions := by
    cases restrictions with
    | nil => exact ⟨⟨fields⟩, rfl, rfl, rfl, rfl, rfl⟩
    | cons r restrictions =>
      refine ⟨⟨fields ++ [("constraints", .list ((r :: restrictions).map Restriction.toValue))]⟩,
        rfl, rfl, rfl, rfl, ?_⟩
      rw [Record.withDefault_eq rfl, hreadRestrictions]
  refine Except.bind_eq_ok_iff.mpr ⟨r, hrecord, ?_⟩
  rw [Record.required_eq hindex, Value.asNatural_integer hrange.index_lt,
    Record.required_eq hweight, Weight.ofValue_toValue hrange.isFinite,
    Record.required_eq hfoundLiterals, Nat.add_sub_cancel, hreadLiterals, hfoundRestrictions]
  rfl

/-! ### Problems -/

/-- Whether every number of a problem is in range: the indices of clauses and the arities of
signatures fit in a word, and the weights are finite. -/
structure Problem.IsInRange (p : Problem) : Prop where
  clauses : ∀ c ∈ p.clauses, c.IsInRange
  openWorld : ∀ s ∈ p.openWorld, s.arity < wordBound
  query : ∀ s ∈ p.query, s.arity < wordBound

theorem checkReadable_eq_ok_iff {v : Value} :
    checkReadable levels v = .ok () ↔ v.IsWithin levels := by
  unfold checkReadable Value.IsWithin
  cases v.depth? with
  | none => simp
  | some depth => simp

namespace Problem

/-- The clauses of a problem are two levels deeper. -/
theorem isWithin_of_mem_clauses {p : Problem} (hlevels : p.toValue.IsWithin (levels + 2))
    {c : Clause Float} (hc : c ∈ p.clauses) : c.toValue.IsWithin levels := by
  have hfields := Value.isWithin_table.mp hlevels
  have hclauses := hfields ("clauses", .list (p.clauses.map Clause.toValue)) (by simp)
  exact Value.isWithin_list.mp hclauses _ (List.mem_map_of_mem hc)

/-- A problem in range is read back within the levels that its tree has. -/
theorem ofValue_toValue {p : Problem} (hrange : p.IsInRange)
    (hlevels : p.toValue.IsWithin levels) : Problem.ofValue levels p.toValue = .ok p := by
  have hneeded : 2 ≤ levels := hlevels.lt_of_not (by simp [toValue])
  obtain ⟨n, rfl⟩ := Nat.exists_eq_add_of_le' hneeded
  have hpredicates : (Value.list (p.schema.predicates.map PredicateDecl.toValue)).asList
      PredicateDecl.ofValue = .ok p.schema.predicates :=
    Value.asList_map fun d _ => d.ofValue_toValue
  have hfunctions : (Value.list (p.schema.functions.map FunctionDecl.toValue)).asList
      FunctionDecl.ofValue = .ok p.schema.functions :=
    Value.asList_map fun f _ => f.ofValue_toValue
  have hclauses : (Value.list (p.clauses.map Clause.toValue)).asList (Clause.ofValue n) =
      .ok p.clauses :=
    Value.asList_map fun c hc =>
      c.ofValue_toValue (hrange.clauses c hc) (isWithin_of_mem_clauses hlevels hc)
  have hfacts : (Value.list (p.facts.map Fact.toValue)).asList Fact.ofValue = .ok p.facts :=
    Value.asList_map fun f _ => f.ofValue_toValue
  have hvalues : (Value.list (p.values.map FunctionValue.toValue)).asList
      FunctionValue.ofValue = .ok p.values :=
    Value.asList_map fun f _ => f.ofValue_toValue
  have hopenWorld : (Value.list (p.openWorld.map Signature.toValue)).asList Signature.ofValue =
      .ok p.openWorld :=
    Value.asList_map fun s hs => s.ofValue_toValue (hrange.openWorld s hs)
  have hquery : (Value.list (p.query.map Signature.toValue)).asList Signature.ofValue =
      .ok p.query :=
    Value.asList_map fun s hs => s.ofValue_toValue (hrange.query s hs)
  have hfields := Value.isWithin_table.mp hlevels
  -- Only the two fields of the schema are checked for depth before any field is read.
  have hothers : [("predicates", Value.list (p.schema.predicates.map PredicateDecl.toValue)),
      ("functions", .list (p.schema.functions.map FunctionDecl.toValue))].forM
        (fun entry => checkReadable (n + 1) entry.2) = .ok () := by
    refine Except.forM_eq_ok_iff.mpr fun entry hentry => checkReadable_eq_ok_iff.mpr ?_
    exact hfields entry (by simp only [List.mem_cons] at hentry ⊢; tauto)
  refine Except.bind_eq_ok_iff.mpr ⟨(), checkLevels_eq_ok_iff.mpr (by omega), ?_⟩
  refine Except.bind_eq_ok_iff.mpr ⟨(), hothers, ?_⟩
  refine Except.bind_eq_ok_iff.mpr ⟨_, rfl, ?_⟩
  rw [Record.required_eq rfl, Record.withDefault_eq rfl, Record.withDefault_eq rfl,
    Record.withDefault_eq rfl, Record.withDefault_eq rfl, Record.withDefault_eq rfl,
    Record.withDefault_eq rfl, Record.withDefault_eq rfl, Domains.ofValue_toValue,
    hpredicates, hfunctions, Nat.add_sub_cancel, hclauses, hfacts, hvalues, hopenWorld, hquery]
  rfl

end Problem

end LogicNetwork
