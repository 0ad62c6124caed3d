import LogicNetwork.Proofs.Problem.Decoding

/-!
# What a problem file can hold

What is read within a number of levels is nested no deeper than that in its own tree, however it
was nested in the tree that it was read from: a term takes one to three levels for itself and leaves
the others to its arguments, and so do literals, restrictions and clauses.  The numbers that are
read are in range (`Problem.spec_of_ofValue`).
-/

namespace LogicNetwork

variable {levels : Nat}

/-! ### Lists and fields -/

/-- Every item of a list that is read is read from something. -/
theorem Value.exists_of_asList_eq_ok {β : Type} {read : Value → Decoded β} {v : Value}
    {xs : List β} (h : v.asList read = .ok xs) {x : β} (hx : x ∈ xs) : ∃ w, read w = .ok x := by
  cases v with
  | list items =>
    obtain ⟨w, -, hw⟩ := Except.exists_of_mem_of_mapM_eq_ok h hx
    exact ⟨w, hw⟩
  | _ => cases h

theorem Record.exists_of_required_eq_ok {β : Type} {r : Record} {name : String}
    {read : Value → Decoded β} {x : β} (h : r.required name read = .ok x) :
    ∃ v, read v = .ok x := by
  unfold required at h
  split at h
  · exact ⟨_, h⟩
  · cases h

theorem Record.exists_of_mem_required {β : Type} {r : Record} {name : String}
    {read : Value → Decoded β} {xs : List β} (h : r.required name (Value.asList read) = .ok xs)
    {x : β} (hx : x ∈ xs) : ∃ v, read v = .ok x := by
  obtain ⟨v, hv⟩ := exists_of_required_eq_ok h
  exact Value.exists_of_asList_eq_ok hv hx

/-- Every item of a list that is empty where its field is absent is read from something. -/
theorem Record.exists_of_mem_withDefault {β : Type} {r : Record} {name : String}
    {read : Value → Decoded β} {xs : List β}
    (h : r.withDefault name [] (Value.asList read) = .ok xs) {x : β} (hx : x ∈ xs) :
    ∃ v, read v = .ok x := by
  unfold withDefault at h
  split at h
  · exact Value.exists_of_asList_eq_ok h hx
  · cases h
    cases hx

/-! ### Numbers -/

theorem Value.lt_of_asNatural_eq_ok {v : Value} {n : Nat} (h : v.asNatural = .ok n) :
    n < wordBound := by
  cases v with
  | integer i =>
    dsimp only [asNatural] at h
    split_ifs at h with hi
    cases h
    omega
  | _ => cases h

theorem Signature.arity_lt_of_ofValue {v : Value} {s : Signature}
    (h : Signature.ofValue v = .ok s) : s.arity < wordBound := by
  obtain ⟨r, -, h⟩ := Except.bind_eq_ok_iff.mp h
  obtain ⟨symbol, -, h⟩ := Except.bind_eq_ok_iff.mp h
  obtain ⟨arity, harity, h⟩ := Except.bind_eq_ok_iff.mp h
  cases h
  obtain ⟨w, hw⟩ := Record.exists_of_required_eq_ok harity
  exact Value.lt_of_asNatural_eq_ok hw

theorem Weight.isFinite_of_ofValue {v : Value} {w : Weight Float} (h : Weight.ofValue v = .ok w) :
    w.IsFinite := by
  intro x hx
  subst hx
  unfold Weight.ofValue at h
  split at h
  · split_ifs at h
    cases h
  · obtain ⟨y, -, h⟩ := Except.bind_eq_ok_iff.mp h
    split_ifs at h with hfinite
    cases h
    exact hfinite

/-! ### Terms -/

theorem Variable.isWithin_toValue (v : Variable) (levels : Nat) :
    v.toValue.IsWithin (levels + 1) := by
  obtain ⟨name, domain⟩ := v
  cases domain with
  | none => simp [toValue]
  | some d => simp [toValue]

namespace Term

theorem isWithin_of_ofTagged {argument : Value → Decoded Term} {v : Value} {t : Term}
    (hpos : 1 ≤ levels) (h : ofTagged levels argument v = .ok t)
    (hargument : ∀ w a, argument w = .ok a → a.toValue.IsWithin (levels - 3)) :
    t.toValue.IsWithin levels := by
  obtain ⟨⟨tag, content⟩, -, h⟩ := Except.bind_eq_ok_iff.mp h
  obtain ⟨n, rfl⟩ := Nat.exists_eq_add_of_le' hpos
  dsimp only at h
  -- For variables and functions the check has left enough levels for the tables of the term itself.
  split_ifs at h with hconst hvar happ
  · obtain ⟨c, -, h⟩ := Except.bind_eq_ok_iff.mp h
    cases h
    simp [toValue]
  · obtain ⟨⟨⟩, hneeded, h⟩ := Except.bind_eq_ok_iff.mp h
    obtain ⟨x, -, h⟩ := Except.bind_eq_ok_iff.mp h
    cases h
    obtain ⟨m, rfl⟩ := Nat.exists_eq_add_of_le' (Nat.le_of_succ_le_succ
      (checkLevels_eq_ok_iff.mp hneeded))
    simp [toValue, x.isWithin_toValue]
  · obtain ⟨⟨⟩, hneeded, h⟩ := Except.bind_eq_ok_iff.mp h
    obtain ⟨r, -, h⟩ := Except.bind_eq_ok_iff.mp h
    obtain ⟨f, -, h⟩ := Except.bind_eq_ok_iff.mp h
    obtain ⟨as, has, h⟩ := Except.bind_eq_ok_iff.mp h
    cases h
    obtain ⟨m, rfl⟩ := Nat.exists_eq_add_of_le' (Nat.le_of_succ_le_succ
      (checkLevels_eq_ok_iff.mp hneeded))
    refine isWithin_app.mpr fun a ha => ?_
    obtain ⟨w, hw⟩ := Record.exists_of_mem_required has ha
    exact hargument w a hw

/-- A term that is read within a number of levels is nested no deeper than that. -/
theorem isWithin_of_ofValue (levels : Nat) {v : Value} {t : Term}
    (h : Term.ofValue levels v = .ok t) : t.toValue.IsWithin levels := by
  induction levels using Nat.strongRecOn generalizing v t with
  | _ levels ih =>
    match levels with
    | 0 => cases h
    | 1 => exact isWithin_of_ofTagged (by omega) h fun w a ha => nomatch ha
    | 2 => exact isWithin_of_ofTagged (by omega) h fun w a ha => nomatch ha
    | n + 3 => exact isWithin_of_ofTagged (by omega) h fun w a ha => ih n (by omega) ha

end Term

/-! ### Clauses -/

theorem Literal.isWithin_of_ofValue {v : Value} {l : Literal}
    (h : Literal.ofValue (levels + 3) v = .ok l) : l.toValue.IsWithin (levels + 3) := by
  obtain ⟨r, -, h⟩ := Except.bind_eq_ok_iff.mp h
  obtain ⟨positive, -, h⟩ := Except.bind_eq_ok_iff.mp h
  obtain ⟨atom, h⟩ := Record.exists_of_required_eq_ok h
  obtain ⟨a, -, h⟩ := Except.bind_eq_ok_iff.mp h
  obtain ⟨predicate, -, h⟩ := Except.bind_eq_ok_iff.mp h
  obtain ⟨arguments, harguments, h⟩ := Except.bind_eq_ok_iff.mp h
  cases h
  refine isWithin_toValue.mpr fun t ht => ?_
  obtain ⟨w, hw⟩ := Record.exists_of_mem_required harguments ht
  exact Term.isWithin_of_ofValue levels hw

theorem Restriction.isWithin_of_ofValue {v : Value} {r : Restriction}
    (h : Restriction.ofValue (levels + 2) v = .ok r) : r.toValue.IsWithin (levels + 2) := by
  obtain ⟨⟨tag, content⟩, -, h⟩ := Except.bind_eq_ok_iff.mp h
  dsimp only at h
  split_ifs at h
  -- The pair is read in the same way behind both tags.
  all_goals
    obtain ⟨equal, hequal, h⟩ := Except.bind_eq_ok_iff.mp h
    cases hequal
  all_goals
    obtain ⟨pair, -, h⟩ := Except.bind_eq_ok_iff.mp h
    split at h
    · obtain ⟨left, hleft, h⟩ := Except.bind_eq_ok_iff.mp h
      obtain ⟨right, hright, h⟩ := Except.bind_eq_ok_iff.mp h
      cases h
      exact isWithin_toValue.mpr
        ⟨Term.isWithin_of_ofValue levels hleft, Term.isWithin_of_ofValue levels hright⟩
    · cases h

theorem Clause.spec_of_ofValue {v : Value} {c : Clause Float}
    (h : Clause.ofValue (levels + 5) v = .ok c) :
    c.IsInRange ∧ c.toValue.IsWithin (levels + 5) := by
  obtain ⟨r, -, h⟩ := Except.bind_eq_ok_iff.mp h
  obtain ⟨index, hindex, h⟩ := Except.bind_eq_ok_iff.mp h
  obtain ⟨weight, hweight, h⟩ := Except.bind_eq_ok_iff.mp h
  obtain ⟨literals, hliterals, h⟩ := Except.bind_eq_ok_iff.mp h
  obtain ⟨restrictions, hrestrictions, h⟩ := Except.bind_eq_ok_iff.mp h
  cases h
  constructor
  · obtain ⟨i, hi⟩ := Record.exists_of_required_eq_ok hindex
    obtain ⟨w, hw⟩ := Record.exists_of_required_eq_ok hweight
    exact ⟨Value.lt_of_asNatural_eq_ok hi, Weight.isFinite_of_ofValue hw⟩
  · refine isWithin_toValue.mpr ⟨fun l hl => ?_, fun r hr => ?_⟩
    · obtain ⟨w, hw⟩ := Record.exists_of_mem_required hliterals hl
      exact Literal.isWithin_of_ofValue hw
    · obtain ⟨w, hw⟩ := Record.exists_of_mem_withDefault hrestrictions hr
      exact Restriction.isWithin_of_ofValue hw

/-! ### Problems -/

theorem isWithin_textList (items : List String) (levels : Nat) :
    (textList items).IsWithin (levels + 1) := by
  simp [textList]

/-- Apart from its clauses, a problem is nested to a depth of four at most. -/
theorem Problem.isWithin_toValue {p : Problem}
    (hclauses : ∀ c ∈ p.clauses, c.toValue.IsWithin (levels + 2)) :
    p.toValue.IsWithin (levels + 4) := by
  have hdomains : p.domains.toValue.IsWithin (levels + 3) := by
    simp [Domains.toValue]
  have hpredicates (d : PredicateDecl) : d.toValue.IsWithin (levels + 2) := by
    simp [PredicateDecl.toValue, isWithin_textList]
  have hfunctions (f : FunctionDecl) : f.toValue.IsWithin (levels + 2) := by
    simp [FunctionDecl.toValue, isWithin_textList]
  have hfacts (f : Fact) : f.toValue.IsWithin (levels + 2) := by
    simp [Fact.toValue, isWithin_textList]
  have hvalues (f : FunctionValue) : f.toValue.IsWithin (levels + 2) := by
    simp [FunctionValue.toValue, isWithin_textList]
  have hsignatures (s : Signature) : s.toValue.IsWithin (levels + 2) := by
    simp [Signature.toValue]
  simpa [toValue, hdomains, hpredicates, hfunctions, hfacts, hvalues, hsignatures] using hclauses

/-- A problem that is read is in range and nested no deeper than the levels it was read within. -/
theorem Problem.spec_of_ofValue {v : Value} {p : Problem}
    (h : Problem.ofValue (levels + 7) v = .ok p) :
    p.IsInRange ∧ p.toValue.IsWithin (levels + 7) := by
  cases v with
  | table entries =>
    -- The checks and the fields without numbers and terms bear on nothing.
    obtain ⟨⟨⟩, -, h⟩ := Except.bind_eq_ok_iff.mp h
    obtain ⟨⟨⟩, -, h⟩ := Except.bind_eq_ok_iff.mp h
    obtain ⟨r, -, h⟩ := Except.bind_eq_ok_iff.mp h
    obtain ⟨domains, -, h⟩ := Except.bind_eq_ok_iff.mp h
    obtain ⟨predicates, -, h⟩ := Except.bind_eq_ok_iff.mp h
    obtain ⟨functions, -, h⟩ := Except.bind_eq_ok_iff.mp h
    obtain ⟨clauses, hclauses, h⟩ := Except.bind_eq_ok_iff.mp h
    obtain ⟨facts, -, h⟩ := Except.bind_eq_ok_iff.mp h
    obtain ⟨values, -, h⟩ := Except.bind_eq_ok_iff.mp h
    obtain ⟨openWorld, hopenWorld, h⟩ := Except.bind_eq_ok_iff.mp h
    obtain ⟨query, hquery, h⟩ := Except.bind_eq_ok_iff.mp h
    cases h
    have hspec : ∀ c ∈ clauses, c.IsInRange ∧ c.toValue.IsWithin (levels + 5) := by
      intro c hc
      obtain ⟨w, hw⟩ := Record.exists_of_mem_withDefault hclauses hc
      exact Clause.spec_of_ofValue hw
    constructor
    · refine ⟨fun c hc => (hspec c hc).1, fun s hs => ?_, fun s hs => ?_⟩
      · obtain ⟨w, hw⟩ := Record.exists_of_mem_withDefault hopenWorld hs
        exact Signature.arity_lt_of_ofValue hw
      · obtain ⟨w, hw⟩ := Record.exists_of_mem_withDefault hquery hs
        exact Signature.arity_lt_of_ofValue hw
    · exact isWithin_toValue fun c hc => (hspec c hc).2
  | _ => cases h

end LogicNetwork
