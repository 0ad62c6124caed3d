import LogicNetwork.Proofs.Grounding.Faults
import LogicNetwork.Proofs.Grounding.Run
import LogicNetwork.Proofs.Grounding.Truth
import LogicNetwork.Proofs.Network.Constraints

/-!
# Where a network comes from

`Network.IsGrounding` says what relates a network to the clauses, the evidence and the query that
it was grounded from: the clauses in resolved form (`IsResolution`), none of which the evidence
contradicts, and the constraints and the atoms as they follow from the contributions of these.
Every network that grounding gives is one (`Network.isGrounding_of_ground`), and where grounding
ends with a contradiction it is one of the two that `Network.exists_of_ground_eq_error` names.
Nothing later has to look into `Network.ground` again.
-/

namespace LogicNetwork

variable {α : Type}

/-! ### Clauses and their weights -/

section Weights

variable [WeightArithmetic α]

/-- Checked clauses have indices of their own and weights that are numbers. -/
theorem checkClauses_eq_ok {seen : List Nat} {clauses : List (Clause α)}
    (h : checkClauses seen clauses = .ok ()) :
    (clauses.map Clause.index).Nodup ∧
      ∀ c ∈ clauses, c.index ∉ seen ∧ c.weight.isFinite = true := by
  induction clauses generalizing seen with
  | nil => exact ⟨List.nodup_nil, by simp⟩
  | cons c clauses ih =>
    rw [checkClauses] at h
    split at h
    · cases h
    · rename_i hfresh
      split at h
      · cases h
      · rename_i hfinite
        obtain ⟨hnodup, hall⟩ := ih h
        have hc : c.index ∉ seen := by simpa using hfresh
        refine ⟨?_, ?_⟩
        · rw [List.map_cons, List.nodup_cons]
          refine ⟨?_, hnodup⟩
          intro hmem
          obtain ⟨d, hd, heq⟩ := List.mem_map.mp hmem
          exact (hall d hd).1 (heq ▸ List.mem_cons_self)
        · intro d hd
          rcases List.mem_cons.mp hd with rfl | hd
          · exact ⟨hc, by simpa using hfinite⟩
          · exact ⟨fun hseen => (hall d hd).1 (List.mem_cons_of_mem _ hseen), (hall d hd).2⟩

/-- The weight of the clause of an index; indices of no clause count as a soft zero. -/
def Network.clauseWeight (clauses : List (Clause α)) (index : Nat) : Weight α :=
  (clauseWeight? clauses index).getD (.soft 0)

omit [WeightArithmetic α] in
theorem Network.clauseWeight?_of_mem {clauses : List (Clause α)}
    (hnodup : (clauses.map Clause.index).Nodup) {c : Clause α} (hc : c ∈ clauses) :
    clauseWeight? clauses c.index = some c.weight := by
  rw [clauseWeight?, find?_key_eq_some hnodup hc]
  rfl

theorem Network.clauseWeight_of_mem {clauses : List (Clause α)}
    (hnodup : (clauses.map Clause.index).Nodup) {c : Clause α} (hc : c ∈ clauses) :
    clauseWeight clauses c.index = c.weight := by
  rw [clauseWeight, clauseWeight?_of_mem hnodup hc, Option.getD_some]

end Weights

/-! ### Resolved clauses -/

theorem Literal.isBasedOn_of_resolve {e : Evidence} {b : Builtins} {slots : List Slot}
    {l : Literal} {r : ResolvedLiteral} (h : l.resolve e b slots = .ok r) : r.IsBasedOn e := by
  rw [Literal.resolve] at h
  split at h
  · rename_i t ht
    obtain ⟨as, -, rfl⟩ := Except.map_eq_ok_iff.mp h
    exact List.mem_of_find?_eq_some ht
  · split at h
    · obtain ⟨as, -, rfl⟩ := Except.map_eq_ok_iff.mp h
      exact trivial
    · cases h

/-- A resolved clause has the index and the status of the clause, and looks its atoms up in the
evidence that it was resolved with. -/
theorem Clause.resolve_eq_ok {e : Evidence} {b : Builtins} {c : Clause α} {r : ResolvedClause}
    (h : c.resolve e b = .ok r) :
    r.index = c.index ∧ r.hard = c.isHard ∧ r.IsBasedOn e := by
  obtain ⟨slots, -, h⟩ := Except.bind_eq_ok_iff.mp h
  obtain ⟨literals, hliterals, h⟩ := Except.bind_eq_ok_iff.mp h
  obtain ⟨restrictions, -, h⟩ := Except.bind_eq_ok_iff.mp h
  cases h
  refine ⟨rfl, rfl, ?_⟩
  intro l hl
  obtain ⟨source, -, hsource⟩ :=
    Except.exists_of_mem_of_mapM_eq_ok (Except.mapError_eq_ok_iff.mp hliterals) hl
  exact Literal.isBasedOn_of_resolve hsource

/-! ### Resolutions -/

variable [WeightArithmetic α]

/-- Whether clauses are as they have to be, and have the given resolved forms. -/
structure IsResolution (b : Builtins) (e : Evidence) (clauses : List (Clause α))
    (resolved : List ResolvedClause) : Prop where
  checked : checkClauses [] clauses = .ok ()
  resolves : clauses.mapM (Clause.resolve e b) = .ok resolved

namespace IsResolution

variable {b : Builtins} {e : Evidence} {clauses : List (Clause α)} {resolved : List ResolvedClause}

theorem of_resolveAll {query : List Signature}
    (h : resolveAll b e clauses query = .ok resolved) : IsResolution b e clauses resolved := by
  obtain ⟨⟨⟩, hchecked, h⟩ := Except.bind_eq_ok_iff.mp h
  obtain ⟨⟨⟩, -, hresolves⟩ := Except.bind_eq_ok_iff.mp h
  exact ⟨hchecked, hresolves⟩

theorem nodup_clauses (h : IsResolution b e clauses resolved) :
    (clauses.map Clause.index).Nodup :=
  (checkClauses_eq_ok h.checked).1

theorem nodup_resolved (h : IsResolution b e clauses resolved) :
    (resolved.map ResolvedClause.index).Nodup := by
  have hindex := Except.map_eq_map_of_mapM_eq_ok (g := Clause.index) h.resolves
    fun c r hr => (Clause.resolve_eq_ok hr).1
  rw [hindex]
  exact h.nodup_clauses

/-- Every clause has its resolved form among the resolved ones. -/
theorem exists_resolved (h : IsResolution b e clauses resolved) {c : Clause α}
    (hc : c ∈ clauses) : ∃ r ∈ resolved, c.resolve e b = .ok r :=
  Except.exists_mem_of_mapM_eq_ok h.resolves hc

/-- Every resolved clause comes from a clause. -/
theorem exists_clause (h : IsResolution b e clauses resolved) {r : ResolvedClause}
    (hr : r ∈ resolved) : ∃ c ∈ clauses, c.resolve e b = .ok r :=
  Except.exists_of_mem_of_mapM_eq_ok h.resolves hr

theorem isBasedOn (h : IsResolution b e clauses resolved) {r : ResolvedClause}
    (hr : r ∈ resolved) : r.IsBasedOn e := by
  obtain ⟨c, -, hc⟩ := h.exists_clause hr
  exact (Clause.resolve_eq_ok hc).2.2

/-- The weight of a resolved clause is hard just if the clause is. -/
theorem isHard_clauseWeight (h : IsResolution b e clauses resolved) {r : ResolvedClause}
    (hr : r ∈ resolved) : (Network.clauseWeight clauses r.index).isHard = r.hard := by
  obtain ⟨c, hc, hresolve⟩ := h.exists_clause hr
  obtain ⟨hindex, hhard, -⟩ := Clause.resolve_eq_ok hresolve
  rw [hindex, hhard, Network.clauseWeight_of_mem h.nodup_clauses hc]
  rfl

/-- A clause makes no more contributions than it has substitutions. -/
theorem countP_contributionsOf_le (h : IsResolution b e clauses resolved) {r : ResolvedClause}
    (hr : r ∈ resolved) :
    ((contributionsOf resolved).countP fun x => x.clause == r.index) ≤
      MixedRadix.count r.radices := by
  rw [List.countP_eq_length_filter, filter_contributionsOf h.nodup_resolved hr]
  exact r.length_contributions_le

/-- If no clause has `2 ^ 31` substitutions, no index has as many contributions. -/
theorem countP_contributionsOf_lt (h : IsResolution b e clauses resolved)
    (hsmall : ∀ r ∈ resolved, MixedRadix.count r.radices < 2147483648) (clause : Nat) :
    ((contributionsOf resolved).countP fun x => x.clause == clause) < 2147483648 := by
  by_cases hclause : ∃ r ∈ resolved, r.index = clause
  · obtain ⟨r, hr, rfl⟩ := hclause
    exact Nat.lt_of_le_of_lt (h.countP_contributionsOf_le hr) (hsmall r hr)
  · -- an index of no clause has no contributions at all
    have hnone : ((contributionsOf resolved).countP fun x => x.clause == clause) = 0 := by
      rw [List.countP_eq_zero]
      intro x hx heq
      obtain ⟨r, hr, binding, -, literals, -, rfl⟩ := mem_contributionsOf.mp hx
      rw [Contribution.clause_of, beq_iff_eq] at heq
      exact hclause ⟨r, hr, heq⟩
    omega

/-- Every contribution is one of a resolved clause, and of one that is hard if its weight is. -/
theorem exists_of_mem_contributionsOf (h : IsResolution b e clauses resolved) {x : Contribution}
    (hx : x ∈ contributionsOf resolved) :
    ∃ r ∈ resolved, x ∈ r.contributions ∧
      (Network.clauseWeight clauses x.clause).isHard = r.hard := by
  rw [contributionsOf_eq_flatMap, List.mem_flatMap] at hx
  obtain ⟨r, hr, hx⟩ := hx
  refine ⟨r, hr, hx, ?_⟩
  rw [r.clause_of_mem_contributions hx, h.isHard_clauseWeight hr]

end IsResolution

/-! ### Groundings -/

/-- Whether a network is what clauses, which have the given resolved forms, become under evidence
and a query. -/
structure Network.IsGrounding (n : Network α) (b : Builtins) (e : Evidence)
    (clauses : List (Clause α)) (query : List Signature) (resolved : List ResolvedClause) : Prop
    extends IsResolution b e clauses resolved where
  /-- The evidence contradicts no hard clause. -/
  consistent : ∀ r ∈ resolved, ∀ binding, MixedRadix.IsNumeral r.radices binding →
    r.contradicts binding = false
  constraints_eq : constraintsOf (clauseWeight clauses)
    (TallyTable.ofList (contributionsOf resolved)).entries = .ok n.constraints
  atoms_eq : n.atoms = ((atomsOf e query n.constraints).map NetworkAtom.fresh).toArray
  clauses_eq : n.clauses = clauses
  evidence_eq : n.evidence = e
  query_eq : n.query = query

namespace Network

variable {n : Network α} {b : Builtins} {e : Evidence} {clauses : List (Clause α)}
  {query : List Signature}

/-- Once substitutions have been counted, there are as many as numerals. -/
theorem totals_eq {chunkSize : Nat} {resolved : List ResolvedClause} {totals : List Nat}
    (h : resolved.mapM (ResolvedClause.substitutionsBy chunkSize) = .ok totals) :
    totals = resolved.map fun r => MixedRadix.count r.radices := by
  have hmap := Except.map_eq_map_of_mapM_eq_ok (k := id) h
    fun r total hr => ResolvedClause.substitutionsBy_eq_ok hr
  rwa [List.map_id] at hmap

/-- Grounding gives groundings. -/
theorem isGrounding_of_ground {chunkSize : Nat}
    (h : ground chunkSize b e clauses query = .ok n) :
    ∃ resolved, n.IsGrounding b e clauses query resolved := by
  obtain ⟨resolved, hresolved, h⟩ := Except.bind_eq_ok_iff.mp h
  obtain ⟨totals, htotals, h⟩ := Except.bind_eq_ok_iff.mp h
  have hresolution := IsResolution.of_resolveAll (Except.mapError_eq_ok_iff.mp hresolved)
  obtain ⟨run, hrun, h⟩ := Except.bind_eq_ok_iff.mp (Except.mapError_eq_ok_iff.mp h)
  rw [totals_eq htotals] at hrun
  obtain ⟨hconsistent, hcontributions⟩ := groundAll_eq_ok hrun
  obtain ⟨constraints, hconstraints, h⟩ := Except.bind_eq_ok_iff.mp h
  rw [hcontributions] at hconstraints
  cases h
  exact ⟨resolved, hresolution, hconsistent, hconstraints, rfl, rfl, rfl, rfl⟩

/-- The signatures of the query of a grounding are declared. -/
theorem exists_block_of_ground {chunkSize : Nat} (h : ground chunkSize b e clauses query = .ok n)
    {s : Signature} (hs : s ∈ query) : ∃ block, e.layout.block s = .ok block := by
  obtain ⟨resolved, hresolved, -⟩ := Except.bind_eq_ok_iff.mp h
  obtain ⟨⟨⟩, -, hresolved⟩ := Except.bind_eq_ok_iff.mp (Except.mapError_eq_ok_iff.mp hresolved)
  obtain ⟨⟨⟩, hquery, -⟩ := Except.bind_eq_ok_iff.mp hresolved
  have hs := Except.mapError_eq_ok_iff.mp (Except.forM_eq_ok_iff.mp hquery s hs)
  obtain ⟨block, hblock, -⟩ := Except.map_eq_ok_iff.mp hs
  exact ⟨block, hblock⟩

namespace IsGrounding

variable {resolved : List ResolvedClause}

/-- The signs of all merged contributions agree. -/
theorem checkSigns_eq_ok (h : n.IsGrounding b e clauses query resolved)
    {entry : List GroundLiteral × List (Nat × Tally)}
    (hentry : entry ∈ (TallyTable.ofList (contributionsOf resolved)).entries) :
    checkSigns (clauseWeight clauses) entry.1 entry.2 = .ok () :=
  (constraintsOf_eq_ok_iff.mp h.constraints_eq).1 entry hentry

/-- The constraints are those of the merged contributions with a source left. -/
theorem mem_constraints_iff (h : n.IsGrounding b e clauses query resolved) {d : Constraint α} :
    d ∈ n.constraints ↔ ∃ entry ∈ (TallyTable.ofList (contributionsOf resolved)).entries,
      sourcesOf entry.2 ≠ [] ∧
        d = ⟨entry.1, combineWeights (clauseWeight clauses) (sourcesOf entry.2),
          sourcesOf entry.2⟩ := by
  rw [(constraintsOf_eq_ok_iff.mp h.constraints_eq).2, List.mem_filterMap]
  exact exists_congr fun entry => and_congr_right fun _ => constraint?_eq_some_iff

/-- Constraints come from clauses only. -/
theorem exists_clause_of_source (h : n.IsGrounding b e clauses query resolved) {d : Constraint α}
    (hd : d ∈ n.constraints) {s : Source} (hs : s ∈ d.sources) :
    ∃ c ∈ clauses, c.index = s.clause := by
  obtain ⟨entry, hentry, -, rfl⟩ := h.mem_constraints_iff.mp hd
  obtain ⟨t, ht, -⟩ := mem_sourcesOf.mp hs
  rw [TallyTable.mem_of_mem_entries hentry, TallyTable.tally?_ofList_eq_some_iff] at ht
  obtain ⟨⟨positive, hx⟩, -⟩ := ht
  obtain ⟨r, hr, hx, -⟩ := h.exists_of_mem_contributionsOf hx
  obtain ⟨c, hc, hresolve⟩ := h.exists_clause hr
  refine ⟨c, hc, ?_⟩
  rw [← (Clause.resolve_eq_ok hresolve).1]
  exact (r.clause_of_mem_contributions hx).symm

end IsGrounding

/-- Where grounding ends with a contradiction, either the evidence contradicts a hard clause or
the signs of some merged contributions do not agree. -/
theorem exists_of_ground_eq_error {chunkSize : Nat} {fault : GroundingError}
    (h : ground chunkSize b e clauses query = .error (.ofGrounding fault))
    (hfault : fault.isContradiction = true) :
    ∃ resolved, IsResolution b e clauses resolved ∧
      ((∃ r ∈ resolved, ∃ binding, MixedRadix.IsNumeral r.radices binding ∧
        r.contradicts binding = true) ∨
      ∃ entry ∈ (TallyTable.ofList (contributionsOf resolved)).entries,
        checkSigns (clauseWeight clauses) entry.1 entry.2 = .error fault) := by
  rcases Except.bind_eq_error_iff.mp h with h | ⟨resolved, hresolved, h⟩
  · -- checks and resolving report no contradiction
    obtain ⟨cause, hcause, heq⟩ := Except.mapError_eq_error_iff.mp h
    cases heq
    rw [isContradiction_resolveAll hcause] at hfault
    cases hfault
  have hresolution := IsResolution.of_resolveAll (Except.mapError_eq_ok_iff.mp hresolved)
  refine ⟨resolved, hresolution, ?_⟩
  rcases Except.bind_eq_error_iff.mp h with h | ⟨totals, htotals, h⟩
  · -- neither does counting
    obtain ⟨r, -, hr⟩ := Except.exists_of_mapM_eq_error h
    rw [r.isContradiction_substitutionsBy hr] at hfault
    cases hfault
  -- what is left are the run and the merging
  rw [totals_eq htotals] at h
  obtain ⟨cause, hcause, heq⟩ := Except.mapError_eq_error_iff.mp h
  cases heq
  rcases Except.bind_eq_error_iff.mp hcause with hrun | ⟨run, hrun, hmerge⟩
  · obtain ⟨r, hr, binding, hbinding, hcontradicts, -⟩ := groundAll_eq_error hrun
    exact .inl ⟨r, hr, binding, hbinding, hcontradicts⟩
  · rcases Except.bind_eq_error_iff.mp hmerge with hmerge | ⟨constraints, -, hlast⟩
    · rw [(groundAll_eq_ok hrun).2] at hmerge
      exact .inr (constraintsOf_eq_error hmerge)
    · cases hlast

end Network

end LogicNetwork
