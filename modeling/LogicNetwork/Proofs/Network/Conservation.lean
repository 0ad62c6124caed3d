import LogicNetwork.Proofs.Network.Schedules
import Mathlib.Algebra.Ring.Nat

/-!
# Where substitutions go

Every substitution of a grounding is satisfied, skipped, violated or produced, and what is violated
or produced is counted in the table of tallies, once and for the clause that it is a substitution
of (`Network.ground_conserves`).  Nothing is lost at the ends of chunks or between workers.

The statistics are sums over outcomes, each of which adds one substitution and one of the four
others (`GroundingStats.sum_ofOutcome`).  The table of a list of contributions counts, for any
choice of clauses, their contributions (`TallyTable.counted_ofList`): the entries have different
literals, the tallies of an entry have different clauses, so a contribution is met in one place.
The words of a tally do not wrap as long as no clause makes `2 ^ 31` contributions.
-/

namespace LogicNetwork

/-! ### Statistics -/

/-- Whether a ground clause is left, with or without literals. -/
def Outcome.isClause : Outcome → Bool
  | .clause _ => true
  | _ => false

theorem ResolvedClause.isSome_contribution? (c : ResolvedClause) (binding : List Nat) :
    (c.contribution? binding).isSome = (c.outcome binding).isClause := by
  rw [contribution?]
  cases c.outcome binding <;> rfl

namespace GroundingStats

/-- Whether every substitution went one of the four ways. -/
def IsBalanced (s : GroundingStats) : Prop :=
  s.substitutions = s.satisfied + s.skipped + s.violated + s.produced

theorem isBalanced_count {s : GroundingStats} (h : s.IsBalanced) (o : Outcome) :
    (s.count o).IsBalanced := by
  unfold IsBalanced at h ⊢
  cases o with
  | satisfied => simp only [count]; omega
  | skipped => simp only [count]; omega
  | clause literals => cases literals <;> simp only [count] <;> omega

theorem left_count (s : GroundingStats) (o : Outcome) :
    (s.count o).violated + (s.count o).produced =
      s.violated + s.produced + if o.isClause = true then 1 else 0 := by
  cases o with
  | satisfied => rfl
  | skipped => rfl
  | clause literals => cases literals <;> simp only [count, Outcome.isClause] <;> simp <;> omega

theorem substitutions_count (s : GroundingStats) (o : Outcome) :
    (s.count o).substitutions = s.substitutions + 1 := by
  cases o with
  | satisfied => rfl
  | skipped => rfl
  | clause literals => cases literals <;> rfl

/-- The statistics of outcomes are balanced; they count all outcomes, and as violated or produced
those that leave a ground clause. -/
theorem sum_ofOutcome (outcomes : List Outcome) :
    (outcomes.map ofOutcome).sum.IsBalanced ∧
      (outcomes.map ofOutcome).sum.substitutions = outcomes.length ∧
      (outcomes.map ofOutcome).sum.violated + (outcomes.map ofOutcome).sum.produced =
        outcomes.countP Outcome.isClause := by
  induction outcomes with
  | nil => exact ⟨rfl, rfl, rfl⟩
  | cons o outcomes ih =>
    obtain ⟨hbalanced, hlength, hleft⟩ := ih
    rw [List.map_cons, List.sum_cons, add_comm, ← count_eq_add, List.countP_cons]
    refine ⟨isBalanced_count hbalanced o, ?_, ?_⟩
    · rw [substitutions_count, hlength, List.length_cons]
    · rw [left_count, hleft]

end GroundingStats

theorem length_substitutionsOf (clauses : List ResolvedClause) :
    (substitutionsOf clauses).length =
      (clauses.map fun c => (c.slots.map fun slot => slot.domain.size).prod).sum := by
  rw [substitutionsOf, List.length_flatMap]
  refine congrArg List.sum (List.map_congr_left fun c _ => ?_)
  rw [List.length_map, MixedRadix.length_numerals, MixedRadix.count_eq_prod]
  rfl

/-- A clause contributes once for every substitution that leaves a ground clause. -/
theorem ResolvedClause.length_contributions (c : ResolvedClause) :
    c.contributions.length =
      (MixedRadix.numerals c.radices).countP fun binding => (c.outcome binding).isClause := by
  rw [contributions, List.length_filterMap_eq_countP]
  refine List.countP_congr fun binding _ => ?_
  rw [isSome_contribution?]

theorem length_contributionsOf (clauses : List ResolvedClause) :
    (contributionsOf clauses).length =
      ((substitutionsOf clauses).map fun s => s.1.outcome s.2).countP Outcome.isClause := by
  rw [List.countP_map, contributionsOf, List.length_filterMap_eq_countP]
  refine List.countP_congr fun s _ => ?_
  rw [ResolvedClause.isSome_contribution?]
  rfl

/-! ### Tables -/

/-- The contributions that a tally has counted, of either sign. -/
def Tally.counted (t : Tally) : Nat :=
  t.plus.toNat + t.minus.toNat

/-- The contributions that a table has counted for some of the clauses. -/
def TallyTable.counted (t : TallyTable) (p : Nat → Bool) : Nat :=
  (t.entries.map fun entry =>
    ((entry.2.filter fun x => p x.1).map fun x => x.2.counted).sum).sum

theorem Tally.counted_ofNat {p m : Nat} (h : p + m < 2147483648) :
    Tally.counted ⟨UInt32.ofNat p, UInt32.ofNat m⟩ = p + m := by
  rw [Tally.counted, UInt32.toNat_ofNat_of_lt' (by simp only [UInt32.size]; omega),
    UInt32.toNat_ofNat_of_lt' (by simp only [UInt32.size]; omega)]

theorem Contribution.length_filter_filter (xs : List Contribution)
    (literals : List GroundLiteral) (clause : Nat) :
    ((xs.filter fun x => decide (literals = x.literals)).filter fun x =>
        decide (clause = x.clause)).length =
      countFor xs literals clause true + countFor xs literals clause false := by
  rw [List.filter_filter, ← List.countP_eq_length_filter, countFor_add_countFor]
  refine List.countP_congr fun x _ => ?_
  rw [isFor_iff, Bool.and_eq_true, decide_eq_true_eq, decide_eq_true_eq, and_comm,
    eq_comm, @eq_comm _ clause]

namespace TallyTable

variable {xs : List Contribution}

/-- An entry counts the contributions to its literals. -/
theorem sum_counted_of_mem_entries (hsmall : ∀ k, (xs.countP fun x => x.clause == k) < 2147483648)
    {literals : List GroundLiteral} {tallies : List (Nat × Tally)}
    (hentry : (literals, tallies) ∈ (ofList xs).entries) (p : Nat → Bool) :
    ((tallies.filter fun x => p x.1).map fun x => x.2.counted).sum =
      ((xs.filter fun x => decide (literals = x.literals)).map fun x =>
        if p x.clause = true then 1 else 0).sum := by
  -- every contribution to these literals has a tally of its clause in the entry
  have hkeys : ∀ x ∈ xs.filter fun x => decide (literals = x.literals),
      x.clause ∈ tallies.map Prod.fst := by
    intro x hx
    rw [List.mem_filter, decide_eq_true_eq] at hx
    obtain ⟨hx, rfl⟩ := hx
    have htally := tally?_ofList_eq_some_iff.mpr
      ⟨⟨x.positive, (hx : ⟨x.literals, x.clause, x.positive⟩ ∈ xs)⟩, rfl⟩
    exact List.mem_map.mpr ⟨_, (mem_of_mem_entries hentry _ _).mpr htally, rfl⟩
  rw [sum_map_filter, ← sum_map_sum_filter_key (nodup_clauses_of_mem_entries hentry) hkeys,
    List.map_map]
  refine congrArg List.sum (List.map_congr_left fun ⟨clause, tally⟩ hmem => ?_)
  -- and the tally is the number of them
  have htally := (mem_of_mem_entries hentry clause tally).mp hmem
  obtain ⟨-, rfl⟩ := tally?_ofList_eq_some_iff.mp htally
  have hle := Contribution.countFor_add_countFor_le xs literals clause
  have hclause := hsmall clause
  have hown : ∀ x ∈ (xs.filter fun x => decide (literals = x.literals)).filter
      (fun x => decide (clause = x.clause)), (if p x.clause = true then 1 else 0) =
        if p clause = true then 1 else 0 := by
    intro x hx
    rw [List.mem_filter, decide_eq_true_eq] at hx
    rw [← hx.2]
  rw [Function.comp_apply, List.map_congr_left hown, List.map_const', List.sum_replicate,
    Contribution.length_filter_filter, Tally.counted_ofNat (by omega)]
  split <;> simp

/-- The table of contributions counts, for some of the clauses, their contributions. -/
theorem counted_ofList (hsmall : ∀ k, (xs.countP fun x => x.clause == k) < 2147483648)
    (p : Nat → Bool) : (ofList xs).counted p = xs.countP fun x => p x.clause := by
  have hkeys : ∀ x ∈ xs, x.literals ∈ (ofList xs).entries.map Prod.fst := by
    intro x hx
    obtain ⟨tallies, hentry, -⟩ := exists_entry_of_mem hx
    exact List.mem_map.mpr ⟨_, hentry, rfl⟩
  have hentries : ∀ entry ∈ (ofList xs).entries,
      ((entry.2.filter fun x => p x.1).map fun x => x.2.counted).sum =
        ((xs.filter fun x => decide (entry.1 = x.literals)).map fun x =>
          if p x.clause = true then 1 else 0).sum :=
    fun _ hentry => sum_counted_of_mem_entries hsmall hentry p
  have hsum := sum_map_sum_filter_key (nodup_literals_entries (ofList xs)) hkeys
    fun x => if p x.clause = true then 1 else 0
  rw [List.map_map] at hsum
  rw [counted, List.map_congr_left hentries]
  refine hsum.trans ?_
  rw [← sum_map_filter (fun x : Contribution => p x.clause) fun _ => 1, List.map_const',
    List.sum_replicate, List.countP_eq_length_filter, nsmul_one, Nat.cast_id]

end TallyTable

/-! ### Groundings -/

namespace Network

variable {α : Type} [WeightArithmetic α] {b : Builtins} {e : Evidence} {query : List Signature}
  {clauses : List (Clause α)}

theorem stats_of_ofRun {run : GroundingRun} {n : Network α}
    (h : ofRun e clauses query run = .ok n) : n.stats = run.stats := by
  obtain ⟨constraints, -, hlast⟩ := Except.bind_eq_ok_iff.mp h
  cases hlast
  rfl

/-- Grounding clauses with fewer than `2 ^ 31` substitutions each loses none of these and counts
none twice, whatever the schedule of the workers and the size of their chunks (`groundUnder_nil` is
about clauses grounded one after the other).  The statistics have all substitutions, each of which
went one of four ways, and the table has counted all that were violated or produced, for each clause
as many as left a ground clause of it. -/
theorem ground_conserves {schedule : List Turn} {chunkSize : Nat} {n : Network α}
    (h : groundUnder schedule chunkSize b e clauses query = .ok n)
    (hsmall : ∀ c ∈ clauses, c.substitutionCount e b < 2147483648) :
    ∃ resolved run, resolveAll b e clauses query = .ok resolved ∧
      Pool.ground schedule chunkSize
        (resolved.zip (resolved.map fun r => MixedRadix.count r.radices)) = .ok run ∧
      ofRun e clauses query run = .ok n ∧
      n.stats.substitutions =
        (resolved.map fun r => (r.slots.map fun slot => slot.domain.size).prod).sum ∧
      n.stats.substitutions =
        n.stats.satisfied + n.stats.skipped + n.stats.violated + n.stats.produced ∧
      (TallyTable.ofList run.contributions.reverse).counted (fun _ => true) =
        n.stats.violated + n.stats.produced ∧
      ∀ r ∈ resolved, (TallyTable.ofList run.contributions.reverse).counted (· == r.index) =
        (MixedRadix.numerals r.radices).countP fun binding => (r.outcome binding).isClause := by
  obtain ⟨resolved, hresolved, h⟩ := Except.bind_eq_ok_iff.mp h
  obtain ⟨totals, htotals, h⟩ := Except.bind_eq_ok_iff.mp h
  obtain ⟨run, hrun, hnetwork⟩ := Except.bind_eq_ok_iff.mp (Except.mapError_eq_ok_iff.mp h)
  have hresolveAll := Except.mapError_eq_ok_iff.mp hresolved
  have hresolution := IsResolution.of_resolveAll hresolveAll
  rw [totals_eq htotals] at hrun
  have hstats := stats_of_ofRun hnetwork
  -- the run has summed up the outcomes and collected what is left of the clauses
  have hresult := Pool.isResultOf_ground schedule chunkSize resolved
  rw [hrun] at hresult
  obtain ⟨-, hsum, hcontributions⟩ := hresult
  have houtcomes : run.stats = (((substitutionsOf resolved).map fun s =>
      s.1.outcome s.2).map GroundingStats.ofOutcome).sum := by
    rw [hsum, List.map_map]
    rfl
  obtain ⟨hbalanced, hlength, hleft⟩ := GroundingStats.sum_ofOutcome
    ((substitutionsOf resolved).map fun s => s.1.outcome s.2)
  rw [← houtcomes] at hbalanced hlength hleft
  -- the table is the one of these contributions, in whatever order they came
  have hperm : run.contributions.reverse.Perm (contributionsOf resolved) :=
    (List.reverse_perm _).trans hcontributions
  have hfew := hresolution.countP_contributionsOf_lt
    (count_lt_of_substitutionCount hresolution hsmall)
  have hcounted : ∀ p, (TallyTable.ofList run.contributions.reverse).counted p =
      (contributionsOf resolved).countP fun x => p x.clause := by
    intro p
    rw [TallyTable.counted, TallyTable.entries_ofList_perm hperm]
    exact TallyTable.counted_ofList hfew p
  refine ⟨resolved, run, hresolveAll, hrun, hnetwork, ?_, hstats ▸ hbalanced, ?_, ?_⟩
  · rw [hstats, hlength, List.length_map, length_substitutionsOf]
  · rw [hcounted, List.countP_true, hstats, hleft, length_contributionsOf]
  · intro r hr
    rw [hcounted, List.countP_eq_length_filter,
      filter_contributionsOf hresolution.nodup_resolved hr, ResolvedClause.length_contributions]

/-- The three clauses of the small theory have six substitutions.  One of them is satisfied, as it
rains on Monday, and two workers that take turns leave the other five in the table. -/
theorem ground_conserves_weather :
    ∃ n, groundUnder [⟨1, false⟩, ⟨0, false⟩, ⟨1, false⟩, ⟨0, false⟩] 1 ⟨[], []⟩ Weather.evidence
        Weather.clauses [] = .ok n ∧
      (∀ c ∈ Weather.clauses, c.substitutionCount Weather.evidence ⟨[], []⟩ < 2147483648) ∧
      n.stats = ⟨6, 1, 0, 0, 5⟩ ∧
      ∃ resolved run, resolveAll ⟨[], []⟩ Weather.evidence Weather.clauses [] = .ok resolved ∧
        Pool.ground [⟨1, false⟩, ⟨0, false⟩, ⟨1, false⟩, ⟨0, false⟩] 1
          (resolved.zip (resolved.map fun r => MixedRadix.count r.radices)) = .ok run ∧
        (TallyTable.ofList run.contributions.reverse).counted (fun _ => true) = 5 := by
  have hground : ((groundUnder [⟨1, false⟩, ⟨0, false⟩, ⟨1, false⟩, ⟨0, false⟩] 1 ⟨[], []⟩
      Weather.evidence Weather.clauses []).toOption.any fun n =>
        decide (n.stats = ⟨6, 1, 0, 0, 5⟩)) = true := by
    decide +kernel
  have hsmall : ∀ c ∈ Weather.clauses,
      c.substitutionCount Weather.evidence ⟨[], []⟩ < 2147483648 := by
    decide +kernel
  obtain ⟨n, hn, hstats⟩ := Except.any_toOption_iff.mp hground
  obtain ⟨resolved, run, hresolved, hrun, -, -, -, hcounted, -⟩ := ground_conserves hn hsmall
  have hstats := of_decide_eq_true hstats
  rw [hstats] at hcounted
  exact ⟨n, hn, hsmall, hstats, resolved, run, hresolved, hrun, hcounted⟩

end Network

end LogicNetwork
