import LogicNetwork.Network.Ground
import LogicNetwork.Proofs.Grounding.Substitutions
import LogicNetwork.Proofs.Lists

/-!
# Grounding runs

What one substitution adds to a run (`GroundingRun.record_eq`), and from it what a whole run gives
(`groundAll_eq`): the fault of the first substitution that contradicts a hard clause, or else the
contributions of all substitutions in order (`contributionsOf`) and their statistics.
-/

namespace LogicNetwork

/-! ### One substitution -/

namespace ResolvedClause

/-- Whether the clause is hard and the evidence falsifies all its literals. -/
def contradicts (c : ResolvedClause) (binding : List Nat) : Bool :=
  c.hard && decide (c.outcome binding = .clause [])

/-- What a substitution contributes, if a ground clause is left of it. -/
def contribution? (c : ResolvedClause) (binding : List Nat) : Option Contribution :=
  match c.outcome binding with
  | .clause literals => some (.of c.index literals)
  | _ => none

theorem contribution?_eq_some_iff {c : ResolvedClause} {binding : List Nat} {x : Contribution} :
    c.contribution? binding = some x ↔
      ∃ literals, c.outcome binding = .clause literals ∧ x = .of c.index literals := by
  rw [contribution?]
  cases c.outcome binding <;> simp [eq_comm]

end ResolvedClause

/-- The statistics after one more outcome. -/
def GroundingStats.count (s : GroundingStats) : Outcome → GroundingStats
  | .satisfied =>
    { s with substitutions := s.substitutions + 1, satisfied := s.satisfied + 1 }
  | .skipped => { s with substitutions := s.substitutions + 1, skipped := s.skipped + 1 }
  | .clause [] => { s with substitutions := s.substitutions + 1, violated := s.violated + 1 }
  | .clause (_ :: _) =>
    { s with substitutions := s.substitutions + 1, produced := s.produced + 1 }

namespace GroundingRun

/-- The run after a substitution that contradicts nothing. -/
def advance (run : GroundingRun) (c : ResolvedClause) (binding : List Nat) : GroundingRun :=
  ⟨run.stats.count (c.outcome binding),
    (c.contribution? binding).toList ++ run.contributions⟩

theorem record_eq (run : GroundingRun) (c : ResolvedClause) (binding : List Nat) :
    run.record c binding =
      if c.contradicts binding = true then
        .error (.hardClauseViolated c.index (c.describe binding))
      else .ok (run.advance c binding) := by
  rw [record, ResolvedClause.contradicts, advance, ResolvedClause.contribution?]
  cases c.outcome binding with
  | satisfied => simp [GroundingStats.count]
  | skipped => simp [GroundingStats.count]
  | clause literals =>
    cases literals with
    | nil => cases c.hard <;> simp [GroundingStats.count]
    | cons l rest => simp [GroundingStats.count]

/-! ### Many substitutions -/

/-- A run over substitutions ends at the first that contradicts its clause, or takes in all. -/
theorem foldlM_record_eq (steps : List (ResolvedClause × List Nat)) (run : GroundingRun) :
    steps.foldlM (fun run s => run.record s.1 s.2) run =
      match steps.find? fun s => s.1.contradicts s.2 with
      | some s => .error (.hardClauseViolated s.1.index (s.1.describe s.2))
      | none => .ok (steps.foldl (fun run s => run.advance s.1 s.2) run) := by
  induction steps generalizing run with
  | nil => rfl
  | cons s steps ih =>
    rw [List.foldlM_cons, record_eq, List.find?_cons]
    cases s.1.contradicts s.2 with
    | true => rfl
    | false => exact ih _

theorem contributions_foldl_advance (steps : List (ResolvedClause × List Nat))
    (run : GroundingRun) :
    (steps.foldl (fun run s => run.advance s.1 s.2) run).contributions =
      (steps.filterMap fun s => s.1.contribution? s.2).reverse ++ run.contributions := by
  induction steps generalizing run with
  | nil => rfl
  | cons s steps ih =>
    rw [List.foldl_cons, ih, List.filterMap_cons, advance]
    cases s.1.contribution? s.2 <;> simp

end GroundingRun

/-! ### All substitutions of clauses -/

/-- What the substitutions of clauses contribute, in order. -/
def contributionsOf (clauses : List ResolvedClause) : List Contribution :=
  (substitutionsOf clauses).filterMap fun s => s.1.contribution? s.2

theorem mem_contributionsOf {clauses : List ResolvedClause} {x : Contribution} :
    x ∈ contributionsOf clauses ↔ ∃ c ∈ clauses, ∃ b, MixedRadix.IsNumeral c.radices b ∧
      ∃ literals, c.outcome b = .clause literals ∧ x = .of c.index literals := by
  rw [contributionsOf, List.mem_filterMap]
  constructor
  · rintro ⟨s, hs, hx⟩
    obtain ⟨hc, hb⟩ := mem_substitutionsOf.mp hs
    exact ⟨s.1, hc, s.2, hb, ResolvedClause.contribution?_eq_some_iff.mp hx⟩
  · rintro ⟨c, hc, b, hb, hx⟩
    exact ⟨(c, b), mem_substitutionsOf.mpr ⟨hc, hb⟩,
      ResolvedClause.contribution?_eq_some_iff.mpr hx⟩

/-! ### The contributions of one clause -/

theorem Contribution.clause_of (clause : Nat) (literals : List GroundLiteral) :
    (Contribution.of clause literals).clause = clause := by
  unfold Contribution.of
  split
  · split <;> rfl
  · rfl

/-- What the substitutions of a clause contribute, in order. -/
def ResolvedClause.contributions (c : ResolvedClause) : List Contribution :=
  (MixedRadix.numerals c.radices).filterMap c.contribution?

theorem ResolvedClause.clause_of_mem_contributions {c : ResolvedClause} {x : Contribution}
    (hx : x ∈ c.contributions) : x.clause = c.index := by
  obtain ⟨b, -, hb⟩ := List.mem_filterMap.mp hx
  obtain ⟨literals, -, rfl⟩ := ResolvedClause.contribution?_eq_some_iff.mp hb
  exact Contribution.clause_of c.index literals

theorem ResolvedClause.length_contributions_le (c : ResolvedClause) :
    c.contributions.length ≤ MixedRadix.count c.radices := by
  rw [← MixedRadix.length_numerals]
  exact List.length_filterMap_le _ _

theorem contributionsOf_eq_flatMap (clauses : List ResolvedClause) :
    contributionsOf clauses = clauses.flatMap ResolvedClause.contributions := by
  rw [contributionsOf, substitutionsOf, List.filterMap_flatMap]
  refine congrArg (clauses.flatMap ·) (funext fun c => ?_)
  rw [List.filterMap_map]
  rfl

/-- Clauses of different indices share no contribution. -/
theorem filter_contributionsOf {clauses : List ResolvedClause}
    (hnodup : (clauses.map ResolvedClause.index).Nodup) {c : ResolvedClause} (hc : c ∈ clauses) :
    (contributionsOf clauses).filter (fun x => x.clause == c.index) = c.contributions := by
  rw [contributionsOf_eq_flatMap]
  -- the filter takes everything from the other clauses, and nothing from this one
  have hother : ∀ d : ResolvedClause, d.index ≠ c.index →
      d.contributions.filter (fun x => x.clause == c.index) = [] := by
    intro d hd
    rw [List.filter_eq_nil_iff]
    intro x hx
    rw [d.clause_of_mem_contributions hx, beq_iff_eq]
    exact hd
  have hown : c.contributions.filter (fun x => x.clause == c.index) = c.contributions := by
    rw [List.filter_eq_self]
    intro x hx
    rw [c.clause_of_mem_contributions hx, beq_iff_eq]
  induction clauses with
  | nil => cases hc
  | cons d clauses ih =>
    rw [List.flatMap_cons, List.filter_append]
    rcases List.mem_cons.mp hc with rfl | hc
    · have hrest : (clauses.flatMap ResolvedClause.contributions).filter
          (fun x => x.clause == c.index) = [] := by
        rw [List.filter_flatMap, List.flatMap_eq_nil_iff]
        intro d hd
        exact hother d (key_ne_of_nodup_cons hnodup hd).symm
      rw [hown, hrest, List.append_nil]
    · have hne : d.index ≠ c.index := key_ne_of_nodup_cons hnodup hc
      rw [List.map_cons, List.nodup_cons] at hnodup
      rw [hother d hne, ih hnodup.2 hc, List.nil_append]

/-! ### Whole runs -/

/-- A grounding run over clauses whose substitutions have been counted. -/
theorem groundAll_eq (chunkSize : Nat) (clauses : List ResolvedClause) :
    groundAll chunkSize (clauses.zip (clauses.map fun c => MixedRadix.count c.radices)) =
      match (substitutionsOf clauses).find? fun s => s.1.contradicts s.2 with
      | some s => .error (.hardClauseViolated s.1.index (s.1.describe s.2))
      | none =>
        .ok ((substitutionsOf clauses).foldl (fun run s => run.advance s.1 s.2) .start) := by
  rw [groundAll, groundChunks_eq_foldlM, GroundingRun.foldlM_record_eq]

/-- A run that succeeds has met no contradiction and has all contributions. -/
theorem groundAll_eq_ok {chunkSize : Nat} {clauses : List ResolvedClause} {run : GroundingRun}
    (h : groundAll chunkSize (clauses.zip (clauses.map fun c => MixedRadix.count c.radices)) =
      .ok run) :
    (∀ c ∈ clauses, ∀ b, MixedRadix.IsNumeral c.radices b → c.contradicts b = false) ∧
      run.contributions.reverse = contributionsOf clauses := by
  rw [groundAll_eq] at h
  split at h
  · cases h
  · rename_i hnone
    cases h
    constructor
    · intro c hc b hb
      have hstep := List.find?_eq_none.mp hnone (c, b) (mem_substitutionsOf.mpr ⟨hc, hb⟩)
      exact Bool.not_eq_true _ ▸ hstep
    · rw [GroundingRun.contributions_foldl_advance, GroundingRun.start, List.append_nil,
        List.reverse_reverse, contributionsOf]

/-- A run that fails has met a contradiction, and names its clause. -/
theorem groundAll_eq_error {chunkSize : Nat} {clauses : List ResolvedClause}
    {fault : GroundingError}
    (h : groundAll chunkSize (clauses.zip (clauses.map fun c => MixedRadix.count c.radices)) =
      .error fault) :
    ∃ c ∈ clauses, ∃ b, MixedRadix.IsNumeral c.radices b ∧ c.contradicts b = true ∧
      fault = .hardClauseViolated c.index (c.describe b) := by
  rw [groundAll_eq] at h
  split at h
  · rename_i s hfind
    cases h
    obtain ⟨hc, hb⟩ := mem_substitutionsOf.mp (List.mem_of_find?_eq_some hfind)
    have hcontra : s.1.contradicts s.2 = true :=
      List.find?_some (p := fun s : ResolvedClause × List Nat => s.1.contradicts s.2) hfind
    exact ⟨s.1, hc, s.2, hb, hcontra, rfl⟩
  · cases h

end LogicNetwork
