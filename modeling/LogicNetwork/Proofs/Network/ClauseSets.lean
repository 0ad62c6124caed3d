import LogicNetwork.Proofs.Grounding.Variants
import LogicNetwork.Proofs.Network.Schedules

/-!
# Clauses as sets of literals

Grounding takes a clause for the set of its literals: their order and repetitions show neither in
whether it succeeds nor in the network, but for its statistics, which tell satisfied substitutions
from skipped ones (`Network.ground_literals`).

Clauses of the same literals resolve to variants of each other (`exists_variants_of_resolveAll`),
which have the same contributions and are counted together
(`ResolvedClause.mapM_substitutionsBy_of_variants`), and merging takes from the clauses no more than
their indices and weights (`Network.ofRun_congr`).
-/

namespace LogicNetwork

variable {α : Type}

/-- Where the substitutions of clauses are counted, those of variants of them are counted alike. -/
theorem ResolvedClause.mapM_substitutionsBy_of_variants {resolved resolved' : List ResolvedClause}
    (hvariants : List.Forall₂ ResolvedClause.IsVariant resolved resolved')
    (hpos : ∀ r ∈ resolved, ∀ slot ∈ r.slots, 0 < slot.domain.size) (chunkSize : Nat) :
    resolved'.mapM (substitutionsBy chunkSize) = resolved.mapM (substitutionsBy chunkSize) := by
  induction hvariants with
  | nil => rfl
  | cons hvariant _ ih =>
    rw [List.forall_mem_cons] at hpos
    rw [List.mapM_cons, List.mapM_cons, hvariant.substitutionsBy_eq hpos.1, ih hpos.2]

section

variable [WeightArithmetic α] {b : Builtins} {e : Evidence} {query : List Signature}
  {clauses clauses' : List (Clause α)}

theorem checkClauses_of_sameLiterals (hsame : List.Forall₂ Clause.SameLiterals clauses clauses')
    (seen : List Nat) : checkClauses seen clauses' = checkClauses seen clauses := by
  induction hsame generalizing seen with
  | nil => rfl
  | cons h _ ih => rw [checkClauses, checkClauses, h.index_eq, h.weight_eq, ih]

/-- Where clauses can be checked and resolved, so can clauses of the same literals, and the results
are variants of each other. -/
theorem exists_variants_of_resolveAll {resolved : List ResolvedClause}
    (hsame : List.Forall₂ Clause.SameLiterals clauses clauses')
    (huniform : ∀ c ∈ clauses, c.IsUniform) (h : resolveAll b e clauses query = .ok resolved) :
    ∃ resolved', resolveAll b e clauses' query = .ok resolved' ∧
      List.Forall₂ ResolvedClause.IsVariant resolved resolved' := by
  obtain ⟨⟨⟩, hchecked, h⟩ := Except.bind_eq_ok_iff.mp h
  obtain ⟨⟨⟩, hquery, hresolves⟩ := Except.bind_eq_ok_iff.mp h
  rw [← checkClauses_of_sameLiterals hsame] at hchecked
  obtain ⟨resolved', hresolves', hvariants⟩ :=
    Except.exists_mapM_eq_ok_of_forall₂ ((List.forall₂_and_left _ _).mpr ⟨huniform, hsame⟩)
      (fun _ _ ⟨huniform, h⟩ _ hr => h.exists_isVariant huniform hr) hresolves
  refine ⟨resolved', ?_, hvariants⟩
  rw [resolveAll, hchecked, hquery]
  exact hresolves'

namespace Network

omit [WeightArithmetic α] in
theorem clauseWeight?_of_sameLiterals
    (hsame : List.Forall₂ Clause.SameLiterals clauses clauses') (index : Nat) :
    clauseWeight? clauses' index = clauseWeight? clauses index := by
  unfold clauseWeight?
  induction hsame with
  | nil => rfl
  | cons h _ ih =>
    rw [List.find?_cons, List.find?_cons, h.index_eq]
    split
    · exact congrArg some h.weight_eq
    · exact ih

/-- Where one way to do the work on clauses gives a network, so does every other way on clauses of
the same literals, and only the statistics may be others. -/
theorem groundWith_eq_ok_of_sameLiterals {chunkSize : Nat} {n : Network α}
    {work work' : List (ResolvedClause × Nat) → Except GroundingError GroundingRun}
    (hwork : IsWork work) (hwork' : IsWork work')
    (hsame : List.Forall₂ Clause.SameLiterals clauses clauses')
    (huniform : ∀ c ∈ clauses, c.IsUniform) (hinhabited : ∀ c ∈ clauses, c.IsInhabited e.layout)
    (h : groundWith work chunkSize b e clauses query = .ok n) :
    ∃ stats, groundWith work' chunkSize b e clauses' query =
      .ok { n with clauses := clauses', stats } := by
  obtain ⟨resolved, hresolved, h⟩ := Except.bind_eq_ok_iff.mp h
  obtain ⟨totals, htotals, h⟩ := Except.bind_eq_ok_iff.mp h
  obtain ⟨run, hrun, h⟩ := Except.bind_eq_ok_iff.mp (Except.mapError_eq_ok_iff.mp h)
  have hresolveAll := Except.mapError_eq_ok_iff.mp hresolved
  obtain ⟨resolved', hresolved', hvariants⟩ :=
    exists_variants_of_resolveAll hsame huniform hresolveAll
  -- no domain is empty, so the substitutions can be counted in either order
  have hpos : ∀ r ∈ resolved, ∀ slot ∈ r.slots, 0 < slot.domain.size := by
    intro r hr
    obtain ⟨c, hc, hresolve⟩ := (IsResolution.of_resolveAll hresolveAll).exists_clause hr
    have hslots := Clause.slots_of_resolve hresolve
    exact hinhabited c hc r.slots (Except.toOption_eq_some_iff.mpr hslots)
  have htotals' := htotals
  rw [← ResolvedClause.mapM_substitutionsBy_of_variants hvariants hpos] at htotals'
  -- the work has the same contributions, and merging needs no more
  have hresult := hwork resolved
  have hresult' := hwork' resolved'
  rw [← totals_eq htotals, hrun] at hresult
  rw [← totals_eq htotals'] at hresult'
  obtain ⟨run', hrun', hcontributions⟩ := hresult.exists_ok_of_variants hvariants hresult'
  refine ⟨run'.stats, ?_⟩
  rw [groundWith_of_counted work' hresolved' htotals', hrun']
  show (ofRun e clauses' query run').mapError Abort.ofGrounding = _
  rw [ofRun_congr e query (clauseWeight?_of_sameLiterals hsame) hcontributions, h]
  rfl

/-- Whatever the order of the literals in clauses and however often they are repeated, grounding
succeeds or fails together, under every schedule of the workers (`groundUnder_nil` is about none),
and where it succeeds, it gives the same atoms and the same constraints, with their weights and
sources.  Every variable has to carry the same annotation, or none, at all its occurrences, and the
domains of variables must not be empty. -/
theorem ground_literals {chunkSize : Nat}
    (hsame : List.Forall₂ Clause.SameLiterals clauses clauses')
    (huniform : ∀ c ∈ clauses, c.IsUniform) (hinhabited : ∀ c ∈ clauses, c.IsInhabited e.layout)
    (schedule : List Turn) :
    ((groundUnder schedule chunkSize b e clauses' query).isOk = true ↔
      (ground chunkSize b e clauses query).isOk = true) ∧
    ∀ n n', ground chunkSize b e clauses query = .ok n →
      groundUnder schedule chunkSize b e clauses' query = .ok n' →
        n'.atoms = n.atoms ∧ n'.constraints = n.constraints := by
  have hground : IsWork (groundAll chunkSize) := isResultOf_groundAll chunkSize
  have hunder : IsWork (Pool.ground schedule chunkSize) :=
    Pool.isResultOf_ground schedule chunkSize
  have hsame' : List.Forall₂ Clause.SameLiterals clauses' clauses :=
    (hsame.imp fun _ _ h => h.symm).flip
  -- each of the changed clauses meets the conditions as well
  have hconditions : ∀ c' ∈ clauses', c'.IsUniform ∧ c'.IsInhabited e.layout := by
    intro c' hc'
    obtain ⟨c, hc, h⟩ := exists_of_forall₂_of_mem hsame hc'
    exact ⟨h.isUniform (huniform c hc), h.isInhabited (huniform c hc) (hinhabited c hc)⟩
  rw [ground_eq_groundWith]
  refine ⟨⟨fun h => ?_, fun h => ?_⟩, fun n n' hn hn' => ?_⟩
  · obtain ⟨n', hn'⟩ := Except.isOk_iff.mp h
    obtain ⟨stats, hn⟩ := groundWith_eq_ok_of_sameLiterals hunder hground hsame'
      (fun c hc => (hconditions c hc).1) (fun c hc => (hconditions c hc).2) hn'
    exact Except.isOk_iff.mpr ⟨_, hn⟩
  · obtain ⟨n, hn⟩ := Except.isOk_iff.mp h
    obtain ⟨stats, hn'⟩ :=
      groundWith_eq_ok_of_sameLiterals hground hunder hsame huniform hinhabited hn
    exact Except.isOk_iff.mpr ⟨_, hn'⟩
  · obtain ⟨stats, hsecond⟩ :=
      groundWith_eq_ok_of_sameLiterals hground hunder hsame huniform hinhabited hn
    cases hn'.symm.trans hsecond
    exact ⟨rfl, rfl⟩

/-! #### Rain that spreads -/

namespace Spread

/-- A literal about a day. -/
def about (positive : Bool) (predicate day : String) : Literal :=
  ⟨positive, predicate, [.var ⟨day, none⟩]⟩

/-- Rain on a day makes every other day wet; being wet has a price. -/
def forward : List (Clause ℚ) :=
  [⟨0, .hard, [about false "rain" "x", about true "wet" "y"],
      [⟨false, .var ⟨"x", none⟩, .var ⟨"y", none⟩⟩]⟩,
    ⟨1, .soft (1 / 2), [about false "wet" "x"], []⟩]

/-- The same with the conclusion before the premise and again after it, and the price named
twice. -/
def backward : List (Clause ℚ) :=
  [⟨0, .hard, [about true "wet" "y", about false "rain" "x", about true "wet" "y"],
      [⟨false, .var ⟨"x", none⟩, .var ⟨"y", none⟩⟩]⟩,
    ⟨1, .soft (1 / 2), [about false "wet" "x", about false "wet" "x"], []⟩]

theorem sameLiterals : List.Forall₂ Clause.SameLiterals forward backward := by
  refine .cons ⟨rfl, rfl, rfl, fun literal => ?_⟩ (.cons ⟨rfl, rfl, rfl, fun literal => ?_⟩ .nil)
  · simp only [List.mem_cons, List.not_mem_nil, or_false]
    tauto
  · simp only [List.mem_cons, List.not_mem_nil, or_false, or_self]

end Spread

/-- Other days than that of the rain get wet, whether the clauses are read forward by one worker or
backward by workers that take turns. -/
theorem ground_literals_spread :
    List.Forall₂ Clause.SameLiterals Spread.forward Spread.backward ∧
    (∀ c ∈ Spread.forward, c.IsUniform) ∧
    (∀ c ∈ Spread.forward, c.IsInhabited Weather.evidence.layout) ∧
    ∃ n n', ground 1 ⟨[], []⟩ Weather.evidence Spread.forward [] = .ok n ∧
      groundUnder [⟨1, false⟩, ⟨0, false⟩] 1 ⟨[], []⟩ Weather.evidence Spread.backward [] =
        .ok n' ∧
      n'.atoms = n.atoms ∧ n'.constraints = n.constraints := by
  have huniform : ∀ c ∈ Spread.forward, c.IsUniform := by decide +kernel
  have hinhabited : ∀ c ∈ Spread.forward, c.IsInhabited Weather.evidence.layout := by
    decide +kernel
  have hground : (ground 1 ⟨[], []⟩ Weather.evidence Spread.forward []).isOk = true := by
    decide +kernel
  obtain ⟨n, hn⟩ := Except.isOk_iff.mp hground
  obtain ⟨hok, hnetworks⟩ := ground_literals (b := ⟨[], []⟩) Spread.sameLiterals huniform hinhabited
    [⟨1, false⟩, ⟨0, false⟩]
  obtain ⟨n', hn'⟩ := Except.isOk_iff.mp (hok.mpr hground)
  exact ⟨Spread.sameLiterals, huniform, hinhabited, n, n', hn, hn', hnetworks n n' hn hn'⟩

end Network

end

end LogicNetwork
