import LogicNetwork.Proofs.Grounding.Run
import Mathlib.Data.Prod.Lex
import Mathlib.Order.Bounds.Basic

/-!
# What working through substitutions gives

`IsResultOf` says what the result of working through substitutions has to be, in terms that do not
mention an order: the summed statistics of all of them and their contributions, or the fault of
some contradiction.

* `isResultOf_groundAll`: working through clauses one after the other has such a result;
* `IsResultOf.exists_ok_of_perm`: substitutions in another order have the same results;
* `groundAll_eq_error_iff`: in the given order, the fault is that of the least place of a
  contradiction, by clause and then by substitution.
-/

namespace LogicNetwork

/-! ### Statistics as sums -/

namespace GroundingStats

instance : Zero GroundingStats :=
  ⟨zero⟩

instance : Add GroundingStats :=
  ⟨fun s t => ⟨s.substitutions + t.substitutions, s.satisfied + t.satisfied,
    s.skipped + t.skipped, s.violated + t.violated, s.produced + t.produced⟩⟩

theorem add_eq (s t : GroundingStats) :
    s + t = ⟨s.substitutions + t.substitutions, s.satisfied + t.satisfied,
      s.skipped + t.skipped, s.violated + t.violated, s.produced + t.produced⟩ :=
  rfl

theorem zero_eq : (0 : GroundingStats) = ⟨0, 0, 0, 0, 0⟩ :=
  rfl

instance : AddCommMonoid GroundingStats where
  add_assoc s t u := by simp only [add_eq, Nat.add_assoc]
  zero_add s := by simp only [add_eq, zero_eq, Nat.zero_add]
  add_zero s := by simp only [add_eq, zero_eq, Nat.add_zero]
  add_comm s t := by simp only [add_eq, Nat.add_comm]
  nsmul := nsmulRec

/-- The statistics of one outcome. -/
def ofOutcome (o : Outcome) : GroundingStats :=
  zero.count o

theorem count_eq_add (s : GroundingStats) (o : Outcome) : s.count o = s + ofOutcome o := by
  rw [ofOutcome, add_eq]
  cases o with
  | satisfied => rfl
  | skipped => rfl
  | clause literals => cases literals <;> rfl

end GroundingStats

namespace ResolvedClause

/-- The statistics of one substitution. -/
def statsOf (c : ResolvedClause) (binding : List Nat) : GroundingStats :=
  .ofOutcome (c.outcome binding)

end ResolvedClause

theorem GroundingRun.stats_foldl_advance (steps : List (ResolvedClause × List Nat))
    (run : GroundingRun) :
    (steps.foldl (fun run s => run.advance s.1 s.2) run).stats =
      run.stats + (steps.map fun s => s.1.statsOf s.2).sum := by
  apply measure_foldl_eq_add_sum
  intro run s
  exact GroundingStats.count_eq_add run.stats (s.1.outcome s.2)

/-! ### Results -/

/-- Whether a result is one that working through substitutions may have, in whatever order. -/
def IsResultOf (steps : List (ResolvedClause × List Nat)) :
    Except GroundingError GroundingRun → Prop
  | .ok run =>
    (∀ s ∈ steps, s.1.contradicts s.2 = false) ∧
      run.stats = (steps.map fun s => s.1.statsOf s.2).sum ∧
      run.contributions.Perm (steps.filterMap fun s => s.1.contribution? s.2)
  | .error fault =>
    ∃ s ∈ steps, s.1.contradicts s.2 = true ∧
      fault = .hardClauseViolated s.1.index (s.1.describe s.2)

/-- Working through clauses one after the other has a result of their substitutions. -/
theorem isResultOf_groundAll (chunkSize : Nat) (clauses : List ResolvedClause) :
    IsResultOf (substitutionsOf clauses)
      (groundAll chunkSize (clauses.zip (clauses.map fun c => MixedRadix.count c.radices))) := by
  rw [groundAll_eq]
  split
  · rename_i s hfind
    have hcontra : s.1.contradicts s.2 = true :=
      List.find?_some (p := fun s : ResolvedClause × List Nat => s.1.contradicts s.2) hfind
    exact ⟨s, List.mem_of_find?_eq_some hfind, hcontra, rfl⟩
  · rename_i hnone
    refine ⟨?_, ?_, ?_⟩
    · intro s hs
      exact Bool.not_eq_true _ ▸ List.find?_eq_none.mp hnone s hs
    · rw [GroundingRun.stats_foldl_advance]
      exact zero_add _
    · rw [GroundingRun.contributions_foldl_advance, GroundingRun.start, List.append_nil]
      exact List.reverse_perm _

/-- Where one order of the substitutions has gone through, so does every other, with the same
statistics and contributions. -/
theorem IsResultOf.exists_ok_of_perm {steps steps' : List (ResolvedClause × List Nat)}
    {run : GroundingRun} {result : Except GroundingError GroundingRun}
    (h : IsResultOf steps (.ok run)) (h' : IsResultOf steps' result)
    (hperm : steps.Perm steps') :
    ∃ run', result = .ok run' ∧ run'.stats = run.stats ∧
      run'.contributions.Perm run.contributions := by
  obtain ⟨hnone, hstats, hcontributions⟩ := h
  cases result with
  | ok run' =>
    obtain ⟨-, hstats', hcontributions'⟩ := h'
    refine ⟨run', rfl, ?_, ?_⟩
    · rw [hstats, hstats', (hperm.map _).sum_eq]
    · exact (hcontributions'.trans (hperm.filterMap _).symm).trans hcontributions.symm
  | error fault =>
    -- the contradiction would have been met in the first order as well
    obtain ⟨s, hs, hcontra, -⟩ := h'
    rw [hnone s (hperm.mem_iff.mpr hs)] at hcontra
    cases hcontra

theorem substitutionsOf_perm {clauses clauses' : List ResolvedClause}
    (h : clauses.Perm clauses') : (substitutionsOf clauses).Perm (substitutionsOf clauses') :=
  h.flatMap_right fun c : ResolvedClause => (MixedRadix.numerals c.radices).map (Prod.mk c)

/-! ### The first contradiction -/

/-- Whether a substitution contradicts its clause, both given by their numbers. -/
def Violates (clauses : List ResolvedClause) (place : Nat × Nat) : Prop :=
  ∃ c, clauses[place.1]? = some c ∧ place.2 < MixedRadix.count c.radices ∧
    c.contradicts (MixedRadix.digits c.radices place.2) = true

/-- Whether a place is the least at which a substitution contradicts its clause, by clause and
then by substitution. -/
def IsFirstViolation (clauses : List ResolvedClause) (place : Nat × Nat) : Prop :=
  IsLeast {x : ℕ ×ₗ ℕ | Violates clauses (ofLex x)} (toLex place)

theorem isFirstViolation_iff {clauses : List ResolvedClause} {i n : Nat} :
    IsFirstViolation clauses (i, n) ↔ Violates clauses (i, n) ∧
      ∀ j m, Violates clauses (j, m) → i < j ∨ i = j ∧ n ≤ m := by
  unfold IsFirstViolation IsLeast lowerBounds
  refine and_congr Iff.rfl ?_
  constructor
  · intro h j m hviolates
    exact Prod.Lex.toLex_le_toLex.mp (h (show toLex (j, m) ∈ _ from hviolates))
  · intro h x hx
    exact Prod.Lex.le_iff.mpr (h (ofLex x).1 (ofLex x).2 hx)

/-- The first numeral that contradicts a clause is the one of the least number. -/
theorem find?_numerals_eq_some {c : ResolvedClause} {s : ResolvedClause × List Nat}
    (h : ((MixedRadix.numerals c.radices).map (Prod.mk c)).find?
      (fun s => s.1.contradicts s.2) = some s) :
    ∃ n < MixedRadix.count c.radices, s = (c, MixedRadix.digits c.radices n) ∧
      c.contradicts (MixedRadix.digits c.radices n) = true ∧
      ∀ m, c.contradicts (MixedRadix.digits c.radices m) = true → n ≤ m := by
  rw [MixedRadix.numerals, List.map_map, List.find?_map, Option.map_eq_some_iff] at h
  obtain ⟨n, hfind, rfl⟩ := h
  rw [List.find?_range_eq_some] at hfind
  obtain ⟨hcontra, hn, hleast⟩ := hfind
  refine ⟨n, List.mem_range.mp hn, rfl, hcontra, ?_⟩
  intro m hm
  by_contra hlt
  have hnot := hleast m (by omega)
  rw [Bool.not_eq_true'] at hnot
  exact absurd hm (Bool.not_eq_true _ ▸ hnot)

/-- The substitution at which working through clauses ends is at the first violation. -/
theorem isFirstViolation_of_find? {clauses : List ResolvedClause}
    {s : ResolvedClause × List Nat}
    (h : (substitutionsOf clauses).find? (fun s => s.1.contradicts s.2) = some s) :
    ∃ i n, IsFirstViolation clauses (i, n) ∧ clauses[i]? = some s.1 ∧
      s.2 = MixedRadix.digits s.1.radices n := by
  induction clauses with
  | nil => cases h
  | cons c clauses ih =>
    rw [substitutionsOf, List.flatMap_cons, List.find?_append, Option.or_eq_some_iff] at h
    rcases h with h | ⟨hnone, h⟩
    · -- the first clause has the violation, and no place comes before its substitutions
      obtain ⟨n, hn, rfl, hcontra, hleast⟩ := find?_numerals_eq_some h
      refine ⟨0, n, isFirstViolation_iff.mpr ⟨⟨c, rfl, hn, hcontra⟩, ?_⟩, rfl, rfl⟩
      rintro j m ⟨d, hd, -, hm⟩
      cases j with
      | zero =>
        cases hd
        exact .inr ⟨rfl, hleast m hm⟩
      | succ j => exact .inl (Nat.succ_pos j)
    · -- the first clause has none, and all places move by one clause
      obtain ⟨i, n, hfirst, hclause, hdigits⟩ := ih h
      obtain ⟨hviolates, hleast⟩ := isFirstViolation_iff.mp hfirst
      refine ⟨i + 1, n, isFirstViolation_iff.mpr ⟨hviolates, ?_⟩, hclause, hdigits⟩
      rintro j m ⟨d, hd, hm, hcontra⟩
      cases j with
      | zero =>
        cases hd
        have hmem : (c, MixedRadix.digits c.radices m) ∈
            (MixedRadix.numerals c.radices).map (Prod.mk c) :=
          List.mem_map_of_mem (List.mem_map_of_mem (List.mem_range.mpr hm))
        exact absurd hcontra (List.find?_eq_none.mp hnone _ hmem)
      | succ j =>
        have hle := hleast j m ⟨d, hd, hm, hcontra⟩
        omega

/-- Working through clauses one after the other ends with a fault just if there is a violation,
and the fault is that of the first. -/
theorem groundAll_eq_error_iff {chunkSize : Nat} {clauses : List ResolvedClause}
    {fault : GroundingError} :
    groundAll chunkSize (clauses.zip (clauses.map fun c => MixedRadix.count c.radices)) =
        .error fault ↔
      ∃ i n c, IsFirstViolation clauses (i, n) ∧ clauses[i]? = some c ∧
        fault = .hardClauseViolated c.index (c.describe (MixedRadix.digits c.radices n)) := by
  rw [groundAll_eq]
  cases hfind : (substitutionsOf clauses).find? fun s => s.1.contradicts s.2 with
  | none =>
    constructor
    · intro h
      cases h
    · rintro ⟨i, n, c, hfirst, hclause, -⟩
      obtain ⟨d, hd, hn, hcontra⟩ := hfirst.1
      cases hclause.symm.trans hd
      have hpos : 0 < MixedRadix.count c.radices := Nat.lt_of_le_of_lt (Nat.zero_le n) hn
      have hmem : (c, MixedRadix.digits c.radices n) ∈ substitutionsOf clauses :=
        mem_substitutionsOf.mpr ⟨List.mem_of_getElem? hclause,
          MixedRadix.isNumeral_digits (MixedRadix.count_pos_iff.mp hpos) n⟩
      exact absurd hcontra (List.find?_eq_none.mp hfind _ hmem)
  | some s =>
    obtain ⟨i, n, hfirst, hclause, hdigits⟩ := isFirstViolation_of_find? hfind
    show Except.error _ = Except.error fault ↔ _
    constructor
    · intro h
      cases h
      exact ⟨i, n, s.1, hfirst, hclause, by rw [← hdigits]⟩
    · -- a least place is unique
      rintro ⟨j, m, c, hother, hc, rfl⟩
      obtain ⟨rfl, rfl⟩ := Prod.mk.inj (toLex.injective (IsLeast.unique hfirst hother))
      cases hclause.symm.trans hc
      rw [hdigits]

end LogicNetwork
