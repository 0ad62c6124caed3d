import LogicNetwork.Network.Ground
import LogicNetwork.Proofs.Fallible
import LogicNetwork.Proofs.Grounding.Tallies
import LogicNetwork.Proofs.Lists

/-!
# The constraints of merged contributions

`constraintsOf_eq_ok_iff` says which constraints the entries of a table become.  The frequency of
a clause in a constraint (`Constraint.frequency`, zero for clauses that it does not come from) is
the number of its positive contributions less the number of its negative ones
(`frequencyOf_sourcesOf`).  Entries whose frequencies are all zero become no constraint, which
changes no weighted sum of frequencies: over all constraints such a sum is the one over all
contributions (`sum_frequency_constraints`).
-/

namespace LogicNetwork

/-! ### Sources -/

/-- The frequency of a clause among sources, zero if it is not one of them. -/
def frequencyOf (sources : List Source) (clause : Nat) : Int :=
  ((sources.find? fun s => s.clause == clause).map Source.frequency).getD 0

/-- The frequency of a clause in a constraint, zero if the constraint does not come from it. -/
def Constraint.frequency {α : Type} (d : Constraint α) (clause : Nat) : Int :=
  frequencyOf d.sources clause

theorem frequencyOf_cons (s : Source) (sources : List Source) (clause : Nat) :
    frequencyOf (s :: sources) clause =
      if s.clause = clause then s.frequency else frequencyOf sources clause := by
  by_cases h : s.clause = clause <;> simp [frequencyOf, h]

theorem frequencyOf_eq_zero {sources : List Source} {clause : Nat}
    (h : ∀ s ∈ sources, s.clause ≠ clause) : frequencyOf sources clause = 0 := by
  rw [frequencyOf, List.find?_eq_none.mpr fun s hs => by simpa using h s hs]
  rfl

theorem mem_sourcesOf {tallies : List (Nat × Tally)} {s : Source} :
    s ∈ sourcesOf tallies ↔
      ∃ t, (s.clause, t) ∈ tallies ∧ s.frequency = t.frequency ∧ s.frequency ≠ 0 := by
  rw [sourcesOf, List.mem_filter, List.mem_map]
  constructor
  · rintro ⟨⟨⟨clause, t⟩, hmem, rfl⟩, hne⟩
    exact ⟨t, hmem, rfl, of_decide_eq_true hne⟩
  · rintro ⟨t, hmem, heq, hne⟩
    exact ⟨⟨(s.clause, t), hmem, congrArg (Source.mk s.clause) heq.symm⟩, decide_eq_true hne⟩

theorem nodup_clauses_sourcesOf {tallies : List (Nat × Tally)}
    (h : (tallies.map Prod.fst).Nodup) : ((sourcesOf tallies).map Source.clause).Nodup := by
  have hclauses : tallies.map Prod.fst =
      (tallies.map fun x => (⟨x.1, x.2.frequency⟩ : Source)).map Source.clause := by
    rw [List.map_map]
    rfl
  rw [hclauses] at h
  exact h.sublist (List.Sublist.map _ List.filter_sublist)

theorem frequencyOf_of_mem {sources : List Source} (hnodup : (sources.map Source.clause).Nodup)
    {s : Source} (hs : s ∈ sources) : frequencyOf sources s.clause = s.frequency := by
  rw [frequencyOf, find?_key_eq_some hnodup hs]
  rfl

/-- The frequency of a clause is the one of its tally. -/
theorem frequencyOf_sourcesOf_of_mem {tallies : List (Nat × Tally)} {clause : Nat} {t : Tally}
    (hnodup : (tallies.map Prod.fst).Nodup) (h : (clause, t) ∈ tallies) :
    frequencyOf (sourcesOf tallies) clause = t.frequency := by
  by_cases hzero : t.frequency = 0
  · -- a frequency of zero is left out, and the clause has no other tally
    rw [hzero]
    apply frequencyOf_eq_zero
    rintro s hs rfl
    obtain ⟨u, hu, hfrequency, hne⟩ := mem_sourcesOf.mp hs
    have heq : (s.clause, u) = (s.clause, t) := List.inj_on_of_nodup_map hnodup hu h rfl
    cases heq
    exact hne (hfrequency.trans hzero)
  · have hmem : ⟨clause, t.frequency⟩ ∈ sourcesOf tallies := mem_sourcesOf.mpr ⟨t, h, rfl, hzero⟩
    exact frequencyOf_of_mem (nodup_clauses_sourcesOf hnodup) hmem

theorem exists_of_frequencyOf_ne_zero {sources : List Source} {clause : Nat}
    (h : frequencyOf sources clause ≠ 0) :
    ∃ s ∈ sources, s.clause = clause ∧ s.frequency = frequencyOf sources clause := by
  cases hfind : sources.find? fun s => s.clause == clause with
  | none =>
    rw [frequencyOf, hfind] at h
    exact absurd rfl h
  | some s =>
    refine ⟨s, List.mem_of_find?_eq_some hfind, ?_, ?_⟩
    · simpa using List.find?_some hfind
    · rw [frequencyOf, hfind]
      rfl

/-! ### Frequencies of contributions -/

/-- One for positive contributions, minus one for negative ones. -/
def signOf (positive : Bool) : Int :=
  if positive then 1 else -1

@[simp]
theorem signOf_true : signOf true = 1 :=
  rfl

@[simp]
theorem signOf_false : signOf false = -1 :=
  rfl

/-- The sign with which a contribution counts. -/
def Contribution.sign (x : Contribution) : Int :=
  signOf x.positive

/-- In the table of contributions, the frequency of a clause is the number of its positive
contributions less the number of its negative ones. -/
theorem frequencyOf_sourcesOf {xs : List Contribution} {literals : List GroundLiteral}
    {tallies : List (Nat × Tally)}
    (hentry : (literals, tallies) ∈ (TallyTable.ofList xs).entries) {clause : Nat}
    (hsmall : (xs.countP fun x => x.clause == clause) < 2147483648) :
    frequencyOf (sourcesOf tallies) clause =
      Contribution.countFor xs literals clause true -
        Contribution.countFor xs literals clause false := by
  have hle := Contribution.countFor_add_countFor_le xs literals clause
  by_cases hmem : ∃ positive, ⟨literals, clause, positive⟩ ∈ xs
  · -- the clause has a tally, and its words have not wrapped
    have htally := TallyTable.tally?_ofList_eq_some_iff.mpr ⟨hmem, rfl⟩
    rw [← TallyTable.mem_of_mem_entries hentry] at htally
    rw [frequencyOf_sourcesOf_of_mem (TallyTable.nodup_clauses_of_mem_entries hentry) htally,
      Tally.frequency_ofNat (by omega)]
  · -- the clause has no tally and nothing to count
    have hnone : ∀ positive, Contribution.countFor xs literals clause positive = 0 := by
      intro positive
      have hpos := mt Contribution.countFor_pos_iff.mp fun h => hmem ⟨positive, h⟩
      omega
    rw [hnone, hnone, sub_self]
    apply frequencyOf_eq_zero
    rintro s hs rfl
    obtain ⟨t, ht, -⟩ := mem_sourcesOf.mp hs
    rw [TallyTable.mem_of_mem_entries hentry, TallyTable.tally?_ofList_eq_some_iff] at ht
    exact hmem ht.1

/-- Taken with a sign, the frequency of a source is the number of contributions of that sign less
the number of the others. -/
theorem signOf_mul_frequency {xs : List Contribution} {literals : List GroundLiteral}
    {tallies : List (Nat × Tally)}
    (hentry : (literals, tallies) ∈ (TallyTable.ofList xs).entries) {s : Source}
    (hs : s ∈ sourcesOf tallies)
    (hsmall : (xs.countP fun x => x.clause == s.clause) < 2147483648) (positive : Bool) :
    signOf positive * s.frequency =
      Contribution.countFor xs literals s.clause positive -
        Contribution.countFor xs literals s.clause (!positive) := by
  have hnodup := nodup_clauses_sourcesOf (TallyTable.nodup_clauses_of_mem_entries hentry)
  rw [← frequencyOf_of_mem hnodup hs, frequencyOf_sourcesOf hentry hsmall]
  cases positive
  · rw [signOf_false, Bool.not_false]
    omega
  · rw [signOf_true, Bool.not_true, one_mul]

/-- Merging contributions by their literals changes no weighted sum of their signs. -/
theorem sum_countFor {keys : List (List GroundLiteral)} (hnodup : keys.Nodup)
    {xs : List Contribution} (hkeys : ∀ x ∈ xs, x.literals ∈ keys) (clause : Nat)
    (f : List GroundLiteral → Int) :
    (keys.map fun literals =>
      ((Contribution.countFor xs literals clause true : Int) -
        Contribution.countFor xs literals clause false) * f literals).sum =
      (xs.map fun x => if x.clause = clause then x.sign * f x.literals else 0).sum := by
  induction xs with
  | nil => simp [Contribution.countFor]
  | cons x xs ih =>
    -- `x` adds its sign at its own literals, and nothing elsewhere
    have hstep : ∀ literals,
        ((Contribution.countFor (x :: xs) literals clause true : Int) -
          Contribution.countFor (x :: xs) literals clause false) * f literals =
        (if literals = x.literals then
          if x.clause = clause then x.sign * f literals else 0
        else 0) +
        ((Contribution.countFor xs literals clause true : Int) -
          Contribution.countFor xs literals clause false) * f literals := by
      intro literals
      simp only [Contribution.countFor, List.countP_cons, Contribution.isFor, Contribution.sign,
        signOf]
      by_cases hliterals : literals = x.literals
      · by_cases hclause : x.clause = clause <;> cases x.positive <;>
          simp [hliterals, hclause] <;> ring
      · simp [hliterals, Ne.symm hliterals]
    rw [List.map_congr_left fun literals _ => hstep literals, List.sum_map_add,
      ih fun y hy => hkeys y (List.mem_cons_of_mem x hy), List.map_cons, List.sum_cons,
      sum_map_ite_of_mem hnodup (hkeys x (by simp))]

/-! ### Constraints -/

section Constraints

variable {α : Type} [WeightArithmetic α]

/-- The constraint of an entry; none if every frequency is zero. -/
def constraint? (weightOf : Nat → Weight α)
    (entry : List GroundLiteral × List (Nat × Tally)) : Option (Constraint α) :=
  match sourcesOf entry.2 with
  | [] => none
  | sources => some ⟨entry.1, combineWeights weightOf sources, sources⟩

theorem constraint?_eq_some_iff {weightOf : Nat → Weight α}
    {entry : List GroundLiteral × List (Nat × Tally)} {d : Constraint α} :
    constraint? weightOf entry = some d ↔ sourcesOf entry.2 ≠ [] ∧
      d = ⟨entry.1, combineWeights weightOf (sourcesOf entry.2), sourcesOf entry.2⟩ := by
  rw [constraint?]
  split
  · rename_i hnil
    simp [hnil]
  · rename_i hne
    rw [Option.some.injEq]
    exact ⟨fun h => ⟨hne, h.symm⟩, fun h => h.2.symm⟩

/-- The constraints are those of the entries in order, provided that all signs agree. -/
theorem constraintsOf_eq_ok_iff {weightOf : Nat → Weight α}
    {entries : List (List GroundLiteral × List (Nat × Tally))} {constraints : List (Constraint α)} :
    constraintsOf weightOf entries = .ok constraints ↔
      (∀ entry ∈ entries, checkSigns weightOf entry.1 entry.2 = .ok ()) ∧
        constraints = entries.filterMap (constraint? weightOf) := by
  induction entries generalizing constraints with
  | nil => simp [constraintsOf, eq_comm]
  | cons entry entries ih =>
    rw [constraintsOf, Except.bind_eq_ok_iff, List.forall_mem_cons, List.filterMap_cons]
    constructor
    · rintro ⟨⟨⟩, hsigns, hrest⟩
      obtain ⟨rest, hok, hlast⟩ := Except.bind_eq_ok_iff.mp hrest
      obtain ⟨hall, rfl⟩ := ih.mp hok
      refine ⟨⟨hsigns, hall⟩, ?_⟩
      rw [constraint?]
      split at hlast <;> simp_all
    · rintro ⟨⟨hsigns, hall⟩, rfl⟩
      refine ⟨(), hsigns, Except.bind_eq_ok_iff.mpr ⟨_, ih.mpr ⟨hall, rfl⟩, ?_⟩⟩
      rw [constraint?]
      split <;> simp_all

/-- The fault of the constraints is that of an entry. -/
theorem constraintsOf_eq_error {weightOf : Nat → Weight α}
    {entries : List (List GroundLiteral × List (Nat × Tally))} {fault : GroundingError}
    (h : constraintsOf weightOf entries = .error fault) :
    ∃ entry ∈ entries, checkSigns weightOf entry.1 entry.2 = .error fault := by
  induction entries with
  | nil => cases h
  | cons entry entries ih =>
    rw [constraintsOf, Except.bind_eq_error_iff] at h
    rcases h with h | ⟨⟨⟩, -, h⟩
    · exact ⟨entry, by simp, h⟩
    · rcases Except.bind_eq_error_iff.mp h with h | ⟨rest, -, hlast⟩
      · obtain ⟨found, hmem, hfault⟩ := ih h
        exact ⟨found, List.mem_cons_of_mem entry hmem, hfault⟩
      · split at hlast <;> cases hlast

omit [WeightArithmetic α] in
/-- The signs agree unless some hard clause contributes positively and some negatively. -/
theorem checkSigns_eq_ok_iff {weightOf : Nat → Weight α} {literals : List GroundLiteral}
    {tallies : List (Nat × Tally)} :
    checkSigns weightOf literals tallies = .ok () ↔
      ¬ ((∃ x ∈ tallies, (weightOf x.1).isHard = true ∧ 0 < x.2.plus) ∧
        ∃ x ∈ tallies, (weightOf x.1).isHard = true ∧ 0 < x.2.minus) := by
  unfold checkSigns
  simp only [List.any_filter, Bool.and_eq_true, List.any_eq_true, decide_eq_true_eq]
  split
  · rename_i h
    exact ⟨nofun, fun hagree => absurd h hagree⟩
  · rename_i h
    exact ⟨fun _ => h, fun _ => rfl⟩

omit [WeightArithmetic α] in
theorem checkSigns_eq_error {weightOf : Nat → Weight α} {literals : List GroundLiteral}
    {tallies : List (Nat × Tally)} {fault : GroundingError}
    (h : checkSigns weightOf literals tallies = .error fault) :
    (∃ x ∈ tallies, (weightOf x.1).isHard = true ∧ 0 < x.2.plus) ∧
      ∃ x ∈ tallies, (weightOf x.1).isHard = true ∧ 0 < x.2.minus := by
  by_contra hagree
  rw [checkSigns_eq_ok_iff.mpr hagree] at h
  cases h

omit [WeightArithmetic α] in
/-- Where signs do not agree, hard clauses contribute to the same literals with either sign. -/
theorem exists_of_checkSigns_eq_error {weightOf : Nat → Weight α} {xs : List Contribution}
    {literals : List GroundLiteral} {tallies : List (Nat × Tally)} {fault : GroundingError}
    (hentry : (literals, tallies) ∈ (TallyTable.ofList xs).entries)
    (h : checkSigns weightOf literals tallies = .error fault) :
    (∃ k, (weightOf k).isHard = true ∧ ⟨literals, k, true⟩ ∈ xs) ∧
      ∃ k, (weightOf k).isHard = true ∧ ⟨literals, k, false⟩ ∈ xs := by
  obtain ⟨⟨⟨j, t⟩, hj, hjhard, hplus⟩, ⟨k, u⟩, hk, hkhard, hminus⟩ := checkSigns_eq_error h
  rw [TallyTable.mem_of_mem_entries hentry, TallyTable.tally?_ofList_eq_some_iff] at hj hk
  obtain ⟨-, rfl⟩ := hj
  obtain ⟨-, rfl⟩ := hk
  refine ⟨⟨j, hjhard, ?_⟩, ⟨k, hkhard, ?_⟩⟩
  · exact Contribution.countFor_pos_iff.mp (Tally.pos_of_ofNat_pos hplus)
  · exact Contribution.countFor_pos_iff.mp (Tally.pos_of_ofNat_pos hminus)

omit [WeightArithmetic α] in
/-- Where signs agree, hard clauses do not contribute to the same literals with either sign. -/
theorem positive_eq_of_checkSigns_eq_ok {weightOf : Nat → Weight α} {xs : List Contribution}
    {literals : List GroundLiteral} {tallies : List (Nat × Tally)}
    (hentry : (literals, tallies) ∈ (TallyTable.ofList xs).entries)
    (h : checkSigns weightOf literals tallies = .ok ())
    (hsmall : ∀ k, (xs.countP fun x => x.clause == k) < 2147483648) {j k : Nat} {p q : Bool}
    (hj : ⟨literals, j, p⟩ ∈ xs) (hjhard : (weightOf j).isHard = true)
    (hk : ⟨literals, k, q⟩ ∈ xs) (hkhard : (weightOf k).isHard = true) : p = q := by
  -- the tally of a contribution shows its sign, because its words do not wrap
  have htally : ∀ {i : Nat} {r : Bool}, ⟨literals, i, r⟩ ∈ xs →
      ∃ t, (i, t) ∈ tallies ∧ (r = true → 0 < t.plus) ∧ (r = false → 0 < t.minus) := by
    intro i r hi
    have hpos := Contribution.countFor_pos_iff.mpr hi
    have hle := Contribution.countFor_add_countFor_le xs literals i
    have hi' := hsmall i
    refine ⟨_, (TallyTable.mem_of_mem_entries hentry _ _).mpr
      (TallyTable.tally?_ofList_eq_some_iff.mpr ⟨⟨r, hi⟩, rfl⟩), ?_, ?_⟩
    · rintro rfl
      exact Tally.ofNat_pos hpos (by omega)
    · rintro rfl
      exact Tally.ofNat_pos hpos (by omega)
  obtain ⟨t, ht, htplus, htminus⟩ := htally hj
  obtain ⟨u, hu, huplus, huminus⟩ := htally hk
  have hagree := checkSigns_eq_ok_iff.mp h
  cases p <;> cases q
  · rfl
  · exact absurd ⟨⟨_, hu, hkhard, huplus rfl⟩, ⟨_, ht, hjhard, htminus rfl⟩⟩ hagree
  · exact absurd ⟨⟨_, ht, hjhard, htplus rfl⟩, ⟨_, hu, hkhard, huminus rfl⟩⟩ hagree
  · rfl

/-- Entries that become no constraint do not change a weighted sum of frequencies. -/
theorem sum_frequency_filterMap (weightOf : Nat → Weight α)
    (entries : List (List GroundLiteral × List (Nat × Tally))) (clause : Nat)
    (f : List GroundLiteral → Int) :
    ((entries.filterMap (constraint? weightOf)).map fun d =>
      d.frequency clause * f d.literals).sum =
      (entries.map fun entry => frequencyOf (sourcesOf entry.2) clause * f entry.1).sum := by
  induction entries with
  | nil => rfl
  | cons entry entries ih =>
    rw [List.filterMap_cons, List.map_cons, List.sum_cons, ← ih]
    by_cases hnil : sourcesOf entry.2 = []
    · have hnone : constraint? weightOf entry = none := by rw [constraint?, hnil]
      rw [hnone, hnil, frequencyOf_eq_zero (by simp), zero_mul, zero_add]
    · rw [constraint?_eq_some_iff.mpr ⟨hnil, rfl⟩]
      rfl

/-- Over the constraints of contributions, a weighted sum of the frequencies of a clause is the
one over its contributions. -/
theorem sum_frequency_constraints {weightOf : Nat → Weight α} {xs : List Contribution}
    {constraints : List (Constraint α)}
    (h : constraintsOf weightOf (TallyTable.ofList xs).entries = .ok constraints) {clause : Nat}
    (hsmall : (xs.countP fun x => x.clause == clause) < 2147483648)
    (f : List GroundLiteral → Int) :
    (constraints.map fun d => d.frequency clause * f d.literals).sum =
      (xs.map fun x => if x.clause = clause then x.sign * f x.literals else 0).sum := by
  -- every contribution is counted in an entry
  have hkeys : ∀ x ∈ xs, x.literals ∈ (TallyTable.ofList xs).entries.map Prod.fst := by
    intro x hx
    obtain ⟨tallies, hentry, -⟩ := TallyTable.exists_entry_of_mem hx
    exact List.mem_map.mpr ⟨_, hentry, rfl⟩
  obtain ⟨-, rfl⟩ := constraintsOf_eq_ok_iff.mp h
  rw [sum_frequency_filterMap, ← sum_countFor (TallyTable.nodup_literals_entries _) hkeys,
    List.map_map]
  refine congrArg List.sum (List.map_congr_left fun entry hentry => ?_)
  rw [Function.comp_apply, frequencyOf_sourcesOf hentry hsmall]

end Constraints

end LogicNetwork
