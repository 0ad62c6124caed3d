import LogicNetwork.Proofs.Grounding.Pools
import LogicNetwork.Proofs.Network.Chunks
import LogicNetwork.Proofs.Network.TrueCount

/-!
# Networks and the order of the work

`Network.groundUnder` is grounding with a pool of workers that take turns as a schedule says.  The
network does not depend on the schedule, on the size of the chunks or on the order of the clauses
(`Network.ground_order_irrelevant`), and the fault of grounding the clauses one after the other is
that of the first violation, whatever the size of the chunks.  All this is under the condition that
the chunks fit (`Clause.FitsChunks`): chunks that do not fit hide a violated hard clause that others
show (`Network.ground_eq_excessiveSum_lock`).

The reasons are that a result of the work is known up to the order of its contributions
(`IsResultOf`), that merging forgets this order (`TallyTable.entries_ofList_perm`), and that all
else depends on the set of the clauses alone (`exists_perm_of_resolveAll`,
`Network.clauseWeight?_perm`).
-/

namespace LogicNetwork

variable {α : Type}

/-! ### Clauses in another order -/

section Order

variable [WeightArithmetic α] {b : Builtins} {e : Evidence} {query : List Signature}
  {clauses clauses' : List (Clause α)}

theorem checkClauses_eq_ok_iff {seen : List Nat} :
    checkClauses seen clauses = .ok () ↔ (clauses.map Clause.index).Nodup ∧
      ∀ c ∈ clauses, c.index ∉ seen ∧ c.weight.isFinite = true := by
  refine ⟨checkClauses_eq_ok, ?_⟩
  rintro ⟨hnodup, hall⟩
  induction clauses generalizing seen with
  | nil => rfl
  | cons c clauses ih =>
    obtain ⟨hfresh, hfinite⟩ := hall c List.mem_cons_self
    have hseen : ¬ seen.contains c.index = true := by simpa using hfresh
    have hrest := (List.nodup_cons.mp (List.map_cons ▸ hnodup)).2
    rw [checkClauses, if_neg hseen, hfinite]
    refine ih hrest fun d hd => ?_
    obtain ⟨hd', hdfinite⟩ := hall d (List.mem_cons_of_mem c hd)
    refine ⟨?_, hdfinite⟩
    rw [List.mem_cons]
    rintro (heq | hmem)
    · exact key_ne_of_nodup_cons hnodup hd heq.symm
    · exact hd' hmem

/-- Clauses that can be checked and resolved can be so in any order. -/
theorem exists_perm_of_resolveAll {resolved : List ResolvedClause}
    (hperm : clauses.Perm clauses') (h : resolveAll b e clauses query = .ok resolved) :
    ∃ resolved', resolveAll b e clauses' query = .ok resolved' ∧ resolved.Perm resolved' := by
  obtain ⟨⟨⟩, hchecked, h⟩ := Except.bind_eq_ok_iff.mp h
  obtain ⟨⟨⟩, hquery, hresolves⟩ := Except.bind_eq_ok_iff.mp h
  have hchecked' : checkClauses [] clauses' = .ok () := by
    rw [checkClauses_eq_ok_iff] at hchecked ⊢
    refine ⟨(hperm.map Clause.index).nodup_iff.mp hchecked.1, ?_⟩
    intro c hc
    exact hchecked.2 c (hperm.mem_iff.mpr hc)
  obtain ⟨resolved', hresolves', hsame⟩ := Except.exists_perm_of_mapM_eq_ok hperm hresolves
  refine ⟨resolved', ?_, hsame⟩
  rw [resolveAll, hchecked', hquery]
  exact hresolves'

namespace Network

omit [WeightArithmetic α] in
theorem clauseWeight?_perm (hnodup : (clauses.map Clause.index).Nodup)
    (hperm : clauses.Perm clauses') (index : Nat) :
    clauseWeight? clauses' index = clauseWeight? clauses index := by
  by_cases hindex : ∃ c ∈ clauses, c.index = index
  · obtain ⟨c, hc, rfl⟩ := hindex
    have hnodup' := (hperm.map Clause.index).nodup_iff.mp hnodup
    rw [clauseWeight?_of_mem hnodup hc, clauseWeight?_of_mem hnodup' (hperm.mem_iff.mp hc)]
  · -- no clause has this index, in either order
    have hnone : ∀ cs : List (Clause α), (∀ c ∈ cs, c ∈ clauses) →
        clauseWeight? cs index = none := by
      intro cs hcs
      rw [clauseWeight?, List.find?_eq_none.mpr, Option.map_none]
      intro c hc heq
      exact hindex ⟨c, hcs c hc, beq_iff_eq.mp heq⟩
    rw [hnone clauses fun _ hc => hc, hnone clauses' fun c hc => hperm.mem_iff.mpr hc]

/-- What is left of clauses, with contributions in another order, becomes the same network wherever
the clauses have the same weights; only the statistics are those of the run. -/
theorem ofRun_congr (e : Evidence) (query : List Signature) {run run' : GroundingRun}
    (hweights : ∀ index, clauseWeight? clauses' index = clauseWeight? clauses index)
    (hcontributions : run'.contributions.Perm run.contributions) :
    ofRun e clauses' query run' =
      (ofRun e clauses query run).map fun n =>
        { n with clauses := clauses', stats := run'.stats } := by
  have hreverse : run'.contributions.reverse.Perm run.contributions.reverse :=
    ((List.reverse_perm _).trans hcontributions).trans (List.reverse_perm _).symm
  unfold ofRun
  simp only [hweights, TallyTable.entries_ofList_perm hreverse]
  rw [Except.map_bind]
  rfl

/-- What is left of clauses in another order, with contributions in another order, becomes the
same network. -/
theorem ofRun_perm (e : Evidence) (query : List Signature) {run run' : GroundingRun}
    (hnodup : (clauses.map Clause.index).Nodup)
    (hperm : clauses.Perm clauses') (hstats : run'.stats = run.stats)
    (hcontributions : run'.contributions.Perm run.contributions) :
    ofRun e clauses' query run' =
      (ofRun e clauses query run).map fun n => { n with clauses := clauses' } := by
  rw [ofRun_congr e query (clauseWeight?_perm hnodup hperm) hcontributions, hstats]
  unfold ofRun
  rw [Except.map_bind, Except.map_bind]
  rfl

/-! ### Ways to do the work -/

/-- Grounding with some way to work through substitutions that have been counted. -/
def groundWith (work : List (ResolvedClause × Nat) → Except GroundingError GroundingRun)
    (chunkSize : Nat) (b : Builtins) (e : Evidence) (clauses : List (Clause α))
    (query : List Signature) : Except Abort (Network α) := do
  let resolved ← (resolveAll b e clauses query).mapError Abort.ofGrounding
  let totals ← resolved.mapM (ResolvedClause.substitutionsBy chunkSize)
  (work (resolved.zip totals) >>= ofRun e clauses query).mapError Abort.ofGrounding

/-- Grounding with a worker for each chunk and turns as in a schedule. -/
def groundUnder (schedule : List Turn) (chunkSize : Nat) (b : Builtins) (e : Evidence)
    (clauses : List (Clause α)) (query : List Signature) : Except Abort (Network α) :=
  groundWith (Pool.ground schedule chunkSize) chunkSize b e clauses query

theorem ground_eq_groundWith (chunkSize : Nat) :
    ground chunkSize b e clauses query =
      groundWith (groundAll chunkSize) chunkSize b e clauses query :=
  rfl

/-- Without a schedule, the workers do as if the clauses were grounded one after the other. -/
theorem groundUnder_nil (chunkSize : Nat) :
    groundUnder [] chunkSize b e clauses query = ground chunkSize b e clauses query := by
  rw [groundUnder, ground_eq_groundWith, funext (Pool.ground_nil chunkSize)]

/-- Whether a way to work through substitutions always has a result of them. -/
def IsWork (work : List (ResolvedClause × Nat) → Except GroundingError GroundingRun) : Prop :=
  ∀ resolved : List ResolvedClause, IsResultOf (substitutionsOf resolved)
    (work (resolved.zip (resolved.map fun r => MixedRadix.count r.radices)))

theorem groundWith_of_counted {chunkSize : Nat} {resolved : List ResolvedClause}
    {totals : List Nat}
    (work : List (ResolvedClause × Nat) → Except GroundingError GroundingRun)
    (hresolved : resolveAll b e clauses query = .ok resolved)
    (htotals : resolved.mapM (ResolvedClause.substitutionsBy chunkSize) = .ok totals) :
    groundWith work chunkSize b e clauses query =
      (work (resolved.zip totals) >>= ofRun e clauses query).mapError Abort.ofGrounding := by
  rw [groundWith, hresolved]
  show (resolved.mapM (ResolvedClause.substitutionsBy chunkSize) >>= fun totals =>
    (work (resolved.zip totals) >>= ofRun e clauses query).mapError Abort.ofGrounding) = _
  rw [htotals]
  rfl

/-- Where one way to do the work on clauses in one order gives a network, so does every other way
in every other order, and it is the same network. -/
theorem groundWith_eq_ok_of_perm {chunkSize chunkSize' : Nat} {n : Network α}
    {work work' : List (ResolvedClause × Nat) → Except GroundingError GroundingRun}
    (hwork : IsWork work) (hwork' : IsWork work') (hperm : clauses.Perm clauses')
    (hfits : ∀ c ∈ clauses', c.FitsChunks e b chunkSize')
    (h : groundWith work chunkSize b e clauses query = .ok n) :
    groundWith work' chunkSize' b e clauses' query = .ok { n with clauses := clauses' } := by
  obtain ⟨resolved, hresolved, h⟩ := Except.bind_eq_ok_iff.mp h
  obtain ⟨totals, htotals, h⟩ := Except.bind_eq_ok_iff.mp h
  obtain ⟨run, hrun, h⟩ := Except.bind_eq_ok_iff.mp (Except.mapError_eq_ok_iff.mp h)
  have hresolveAll := Except.mapError_eq_ok_iff.mp hresolved
  have hresolution := IsResolution.of_resolveAll hresolveAll
  obtain ⟨resolved', hresolved', hsame⟩ := exists_perm_of_resolveAll hperm hresolveAll
  -- the substitutions can be counted with the other chunks
  have hcounted : ∀ r ∈ resolved', r.substitutions.isOk = true := by
    intro r hr
    obtain ⟨total, -, htotal⟩ := Except.exists_mem_of_mapM_eq_ok htotals (hsame.mem_iff.mpr hr)
    exact r.isOk_substitutions htotal
  have htotals' := (IsResolution.of_resolveAll hresolved').mapM_substitutionsBy hfits hcounted
  -- the work is the same up to its order, and merging forgets the order
  have hresult := hwork resolved
  rw [← totals_eq htotals, hrun] at hresult
  obtain ⟨run', hrun', hstats, hcontributions⟩ :=
    hresult.exists_ok_of_perm (hwork' resolved') (substitutionsOf_perm hsame)
  have hofRun := ofRun_perm e query hresolution.nodup_clauses hperm hstats hcontributions
  rw [groundWith_of_counted work' hresolved' htotals', hrun']
  show (ofRun e clauses' query run').mapError Abort.ofGrounding = _
  rw [hofRun, h]
  rfl

theorem toOption_groundWith_of_perm {chunkSize chunkSize' : Nat}
    {work work' : List (ResolvedClause × Nat) → Except GroundingError GroundingRun}
    (hwork : IsWork work) (hwork' : IsWork work') (hperm : clauses.Perm clauses')
    (hfits : ∀ c ∈ clauses, c.FitsChunks e b chunkSize)
    (hfits' : ∀ c ∈ clauses', c.FitsChunks e b chunkSize') :
    (groundWith work' chunkSize' b e clauses' query).toOption =
      (groundWith work chunkSize b e clauses query).toOption.map fun n =>
        { n with clauses := clauses' } := by
  cases h : groundWith work chunkSize b e clauses query with
  | ok n =>
    rw [groundWith_eq_ok_of_perm hwork hwork' hperm hfits' h]
    rfl
  | error fault =>
    cases h' : groundWith work' chunkSize' b e clauses' query with
    | error fault' => rfl
    | ok n =>
      have hback := groundWith_eq_ok_of_perm hwork' hwork hperm.symm hfits h'
      rw [h] at hback
      cases hback

/-! ### One clause after the other -/

/-- Merging blames no single substitution. -/
theorem ofRun_ne_hardClauseViolated {run : GroundingRun} {k : Nat} {d : List (String × String)} :
    ofRun e clauses query run ≠ .error (.hardClauseViolated k d) := by
  intro h
  rcases Except.bind_eq_error_iff.mp h with h | ⟨constraints, -, hlast⟩
  · obtain ⟨entry, -, hsigns⟩ := constraintsOf_eq_error h
    simp only [checkSigns] at hsigns
    split_ifs at hsigns
    cases hsigns
  · cases hlast

/-- Grounding reports a violated hard clause just if the clauses can be resolved and counted and
some substitution violates its clause, and then it reports the first. -/
theorem ground_eq_hardClauseViolated_iff {chunkSize : Nat} {k : Nat} {d : List (String × String)}
    (hfits : ∀ c ∈ clauses, c.FitsChunks e b chunkSize) :
    ground chunkSize b e clauses query = .error (.ofGrounding (.hardClauseViolated k d)) ↔
      ∃ resolved, resolveAll b e clauses query = .ok resolved ∧
        (∀ r ∈ resolved, r.substitutions.isOk = true) ∧
        ∃ i n r, IsFirstViolation resolved (i, n) ∧ resolved[i]? = some r ∧ k = r.index ∧
          d = r.describe (MixedRadix.digits r.radices n) := by
  constructor
  · intro h
    rcases Except.bind_eq_error_iff.mp h with h | ⟨resolved, hresolved, h⟩
    · obtain ⟨cause, hcause, heq⟩ := Except.mapError_eq_error_iff.mp h
      cases heq
      exact absurd (isContradiction_resolveAll hcause) Bool.noConfusion
    have hresolveAll := Except.mapError_eq_ok_iff.mp hresolved
    rcases Except.bind_eq_error_iff.mp h with h | ⟨totals, htotals, h⟩
    · obtain ⟨r, -, hr⟩ := Except.exists_of_mapM_eq_error h
      exact absurd (r.isContradiction_substitutionsBy hr) Bool.noConfusion
    refine ⟨resolved, hresolveAll, ?_, ?_⟩
    · intro r hr
      obtain ⟨total, -, htotal⟩ := Except.exists_mem_of_mapM_eq_ok htotals hr
      exact r.isOk_substitutions htotal
    · rw [totals_eq htotals] at h
      obtain ⟨cause, hcause, heq⟩ := Except.mapError_eq_error_iff.mp h
      cases heq
      rcases Except.bind_eq_error_iff.mp hcause with hrun | ⟨run, -, hmerge⟩
      · obtain ⟨i, n, r, hfirst, hr, hfault⟩ := groundAll_eq_error_iff.mp hrun
        cases hfault
        exact ⟨i, n, r, hfirst, hr, rfl, rfl⟩
      · exact absurd hmerge ofRun_ne_hardClauseViolated
  · rintro ⟨resolved, hresolved, hcounted, i, n, r, hfirst, hr, rfl, rfl⟩
    have htotals := (IsResolution.of_resolveAll hresolved).mapM_substitutionsBy hfits hcounted
    have hrun : groundAll chunkSize
        (resolved.zip (resolved.map fun r => MixedRadix.count r.radices)) = .error _ :=
      groundAll_eq_error_iff.mpr ⟨i, n, r, hfirst, hr, rfl⟩
    rw [ground_eq_groundWith, groundWith_of_counted _ hresolved htotals, hrun]
    rfl

/-! ### Every order -/

/-- The network depends neither on the schedule, nor on the size of the chunks, nor on the order
of the clauses; grounding one clause after the other does not depend on the size of the chunks at
all, and reports the first violation of a hard clause, by clause and then by substitution. -/
theorem ground_order_irrelevant {chunkSize chunkSize' : Nat} (hperm : clauses.Perm clauses')
    (hfits : ∀ c ∈ clauses, c.FitsChunks e b chunkSize)
    (hfits' : ∀ c ∈ clauses, c.FitsChunks e b chunkSize') :
    (∀ schedule, (groundUnder schedule chunkSize' b e clauses' query).toOption =
      (ground chunkSize b e clauses query).toOption.map fun n => { n with clauses := clauses' }) ∧
    ground chunkSize' b e clauses query = ground chunkSize b e clauses query ∧
    ∀ k d, ground chunkSize b e clauses query =
        .error (.ofGrounding (.hardClauseViolated k d)) ↔
      ∃ resolved, resolveAll b e clauses query = .ok resolved ∧
        (∀ r ∈ resolved, r.substitutions.isOk = true) ∧
        ∃ i n r, IsFirstViolation resolved (i, n) ∧ resolved[i]? = some r ∧ k = r.index ∧
          d = r.describe (MixedRadix.digits r.radices n) := by
  refine ⟨?_, ground_eq_of_fitsChunks hfits hfits', ?_⟩
  · intro schedule
    rw [ground_eq_groundWith]
    exact toOption_groundWith_of_perm (isResultOf_groundAll chunkSize)
      (Pool.isResultOf_ground schedule chunkSize') hperm hfits
      fun c hc => hfits' c (hperm.mem_iff.mpr hc)
  · intro k d
    exact ground_eq_hardClauseViolated_iff hfits

/-- On the small theory, the clauses may be turned round and cut otherwise, and two workers may
take turns without noticing each other. -/
theorem ground_order_irrelevant_weather :
    Weather.clauses.Perm Weather.clauses.reverse ∧
    (∀ c ∈ Weather.clauses, c.FitsChunks Weather.evidence ⟨[], []⟩ 2) ∧
    (∀ c ∈ Weather.clauses, c.FitsChunks Weather.evidence ⟨[], []⟩ 1) ∧
    ∃ n, ground 2 ⟨[], []⟩ Weather.evidence Weather.clauses [] = .ok n ∧
      groundUnder [⟨1, false⟩, ⟨0, false⟩, ⟨1, false⟩, ⟨0, false⟩] 1 ⟨[], []⟩ Weather.evidence
        Weather.clauses.reverse [] = .ok { n with clauses := Weather.clauses.reverse } := by
  have hperm : Weather.clauses.Perm Weather.clauses.reverse := (List.reverse_perm _).symm
  have hfits : ∀ c ∈ Weather.clauses, c.FitsChunks Weather.evidence ⟨[], []⟩ 2 := by
    decide +kernel
  have hfits' : ∀ c ∈ Weather.clauses, c.FitsChunks Weather.evidence ⟨[], []⟩ 1 := by
    decide +kernel
  have hground : (ground 2 ⟨[], []⟩ Weather.evidence Weather.clauses []).isOk = true := by
    decide +kernel
  obtain ⟨n, hn⟩ := Except.isOk_iff.mp hground
  refine ⟨hperm, hfits, hfits', n, hn, ?_⟩
  have hunder : (groundUnder [⟨1, false⟩, ⟨0, false⟩, ⟨1, false⟩, ⟨0, false⟩] 1 ⟨[], []⟩
      Weather.evidence Weather.clauses.reverse []).toOption = _ :=
    (ground_order_irrelevant hperm hfits hfits').1 _
  rw [hn] at hunder
  exact Except.toOption_eq_some_iff.mp hunder

/-! #### Chunks that do not fit -/

namespace Lock

/-- The digits of a dial. -/
def digit : Domain where
  name := "digit"
  constants := #["1", "2", "3", "4", "5", "6", "7", "8", "9"]
  index := Domain.numbering #["1", "2", "3", "4", "5", "6", "7", "8", "9"]
  nodup := by decide
  index_eq := rfl

/-- Nothing is known, and there is nothing to know. -/
def evidence : Evidence where
  layout :=
    { schema := ⟨[], []⟩
      domains := ⟨[digit], List.pairwise_singleton _ _⟩
      blocks := [] }
  tables := []
  functions := []

/-- The digit on a dial. -/
def dial (i : Nat) : Term :=
  .var ⟨String.ofList (List.replicate i 'x'), some "digit"⟩

/-- No combination may be set on twenty dials. -/
def theory : List (Clause ℚ) :=
  [⟨0, .hard, [], (List.range 20).map fun i => ⟨true, dial i, dial i⟩⟩]

end Lock

/-- Although every combination violates the clause, chunks of a little more than half the numbers
do not show it. -/
theorem ground_eq_excessiveSum_lock :
    ground 9223372036854775809 ⟨[], []⟩ Lock.evidence Lock.theory [] =
      .error (.misuse .excessiveSum) ∧
    ∃ d, ground 12157665459056928801 ⟨[], []⟩ Lock.evidence Lock.theory [] =
      .error (.ofGrounding (.hardClauseViolated 0 d)) := by
  have hresolve : (resolveAll ⟨[], []⟩ Lock.evidence Lock.theory []).toOption.any (fun resolved =>
      resolved.all (fun r => r.substitutions.isOk) && resolved[0]?.any fun r => r.index == 0 &&
        decide (0 < MixedRadix.count r.radices) &&
          r.contradicts (MixedRadix.digits r.radices 0)) = true := by
    decide +kernel
  have hlarge : ∃ c ∈ Lock.theory, ¬ c.FitsChunks Lock.evidence ⟨[], []⟩ 9223372036854775809 := by
    decide +kernel
  have hfits : ∀ c ∈ Lock.theory, c.FitsChunks Lock.evidence ⟨[], []⟩ 12157665459056928801 := by
    decide +kernel
  obtain ⟨resolved, hresolved, hall⟩ := Except.any_toOption_iff.mp hresolve
  rw [Bool.and_eq_true, List.all_eq_true, Option.any_eq_true] at hall
  obtain ⟨hcounted, r, hr, hfirst⟩ := hall
  simp only [Bool.and_eq_true, beq_iff_eq, decide_eq_true_iff] at hfirst
  obtain ⟨⟨hindex, hcount⟩, hcontra⟩ := hfirst
  refine ⟨(ground_eq_excessiveSum_iff hresolved hcounted).mpr hlarge, _,
    (ground_eq_hardClauseViolated_iff hfits).mpr
      ⟨resolved, hresolved, hcounted, 0, 0, r, ?_, hr, hindex.symm, rfl⟩⟩
  -- no place comes before the first
  refine isFirstViolation_iff.mpr ⟨⟨r, hr, hcount, hcontra⟩, fun j m _ => ?_⟩
  omega

end Network

end Order

end LogicNetwork
