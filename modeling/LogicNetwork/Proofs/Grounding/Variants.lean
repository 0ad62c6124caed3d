import LogicNetwork.Proofs.Grounding.Rebinding
import LogicNetwork.Proofs.Grounding.Results
import LogicNetwork.Proofs.Grounding.SameLiterals
import Mathlib.Algebra.BigOperators.Group.List.Basic

/-!
# What is left of clauses of the same literals

Two clauses of the same literals judge them in different orders, and a substitution that one of them
finds satisfied the other may find undefined first.  But a ground clause is left only if no literal
holds and none is undefined, and then it is the set of the undecided ones
(`Outcome.ofVerdicts_eq_clause_iff`): what is left depends on the set of the verdicts alone.

So resolving the clauses gives variants of each other (`ResolvedClause.IsVariant`,
`Clause.SameLiterals.exists_isVariant`): the same slots in another order, with the same ground
clause left, if any, under bindings that give the names the same numbers.  Variants have the same
contributions (`ResolvedClause.IsVariant.contributions_perm`), contradict their clause together,
and can be counted together (`ResolvedClause.IsVariant.substitutionsBy_eq`), unless an empty domain
comes early enough in one order only.
-/

namespace LogicNetwork

/-! ### Sets of verdicts -/

theorem orderedLiterals_congr {ls ms : List GroundLiteral} (h : ∀ l, l ∈ ls ↔ l ∈ ms) :
    orderedLiterals ls = orderedLiterals ms := by
  apply eq_of_pairwise_precedes (isOrdered_orderedLiterals ls) (isOrdered_orderedLiterals ms)
  intro l
  rw [mem_orderedLiterals, mem_orderedLiterals, h]

namespace Outcome

variable {verdicts verdicts' : List Verdict} {literals : List GroundLiteral}

/-- A ground clause is left if no verdict decides and no two of the literals are opposite. -/
theorem ofVerdicts_eq_clause_iff : ofVerdicts verdicts = .clause literals ↔
    (∀ v ∈ verdicts, v.outcome? = none) ∧
      (∀ l ∈ verdicts.filterMap Verdict.literal?,
        l.negate ∉ verdicts.filterMap Verdict.literal?) ∧
      orderedLiterals (verdicts.filterMap Verdict.literal?) = literals := by
  rw [ofVerdicts, ← List.findSome?_eq_none_iff]
  cases hdecided : verdicts.findSome? Verdict.outcome? with
  | some o =>
    -- a verdict that decides leaves nothing
    obtain ⟨v, -, hv⟩ := List.exists_of_findSome?_eq_some hdecided
    cases v <;> cases hv <;> simp
  | none =>
    dsimp only
    split_ifs with hopposite
    · obtain ⟨l, hl, hnegate⟩ := List.any_eq_true.mp hopposite
      rw [List.contains_iff_mem] at hnegate
      simp only [true_and, false_iff, not_and]
      exact fun hnone _ => hnone l hl hnegate
    · have hnone : ∀ l ∈ verdicts.filterMap Verdict.literal?,
          l.negate ∉ verdicts.filterMap Verdict.literal? := by
        intro l hl hnegate
        rw [Bool.not_eq_true, List.any_eq_false] at hopposite
        exact hopposite l hl (List.contains_iff_mem.mpr hnegate)
      rw [clause.injEq]
      exact ⟨fun h => ⟨rfl, hnone, h⟩, fun h => h.2.2⟩

/-- The ground clause that is left does not depend on the order of the verdicts or on
repetitions. -/
theorem ofVerdicts_eq_clause_congr (h : ∀ v, v ∈ verdicts' ↔ v ∈ verdicts) :
    ofVerdicts verdicts' = .clause literals ↔ ofVerdicts verdicts = .clause literals := by
  have hleft : ∀ l, l ∈ verdicts'.filterMap Verdict.literal? ↔
      l ∈ verdicts.filterMap Verdict.literal? := by
    intro l
    simp only [List.mem_filterMap, h]
  simp only [ofVerdicts_eq_clause_iff, orderedLiterals_congr hleft, hleft, h]

end Outcome

/-! ### Counting in any order -/

theorem count64?_perm {rs rs' : List Nat} (hperm : rs.Perm rs') (hpos : ∀ r ∈ rs, 0 < r) :
    count64? 1 rs' = count64? 1 rs := by
  have hpos' : ∀ r ∈ rs', 0 < r := fun r hr => hpos r (hperm.mem_iff.mpr hr)
  have hone : 1 < wordBound := by decide
  rw [count64?_eq hpos hone, count64?_eq hpos' hone, MixedRadix.count_eq_prod,
    MixedRadix.count_eq_prod, hperm.prod_eq]

/-! ### Variants -/

namespace ResolvedClause

theorem outcome_eq (r : ResolvedClause) (binding : List Nat) : r.outcome binding =
    if r.restrictions.all (·.isMet (Slot.denotations r.slots binding)) = true then
      .ofVerdicts (r.literals.map (ResolvedLiteral.judge (Slot.denotations r.slots binding)))
    else .skipped := by
  rw [← judgeAll_eq]
  rfl

/-- The ground clause that is left under a binding is the one that is left under the binding taken
over, if restrictions are met together and literals give the same set of verdicts wherever equal
slots have equal constants. -/
theorem outcome_rebind_iff {r r' : ResolvedClause} (hnodup : (r.slots.map Slot.name).Nodup)
    (hmet : ∀ f : Slot → Denotation, r'.restrictions.all (·.isMet (r'.slots.map f)) =
      r.restrictions.all (·.isMet (r.slots.map f)))
    (hverdicts : ∀ (f : Slot → Denotation) (v : Verdict),
      v ∈ r'.literals.map (ResolvedLiteral.judge (r'.slots.map f)) ↔
        v ∈ r.literals.map (ResolvedLiteral.judge (r.slots.map f)))
    {binding : List Nat} (hbinding : MixedRadix.IsNumeral r.radices binding)
    {literals : List GroundLiteral} :
    r'.outcome (Slot.rebind r.slots r'.slots binding) = .clause literals ↔
      r.outcome binding = .clause literals := by
  obtain ⟨f, hconstants, hrebound⟩ := Slot.exists_denotations_eq_map hnodup hbinding
  rw [outcome_eq, outcome_eq, hconstants, hrebound, hmet f]
  split_ifs
  · exact Outcome.ofVerdicts_eq_clause_congr (hverdicts f)
  · exact Iff.rfl

/-- Whether two resolved clauses have the same index, are both hard or both soft, have the same
slots, in any order, and leave the same ground clauses under bindings that give names the same
numbers. -/
structure IsVariant (r r' : ResolvedClause) : Prop where
  index_eq : r'.index = r.index
  hard_eq : r'.hard = r.hard
  slots_perm : r.slots.Perm r'.slots
  nodup_names : (r.slots.map Slot.name).Nodup
  outcome_iff : ∀ binding, MixedRadix.IsNumeral r.radices binding → ∀ literals,
    r'.outcome (Slot.rebind r.slots r'.slots binding) = .clause literals ↔
      r.outcome binding = .clause literals

namespace IsVariant

variable {r r' : ResolvedClause} {binding : List Nat}

theorem contribution?_rebind (h : r.IsVariant r')
    (hbinding : MixedRadix.IsNumeral r.radices binding) :
    r'.contribution? (Slot.rebind r.slots r'.slots binding) = r.contribution? binding := by
  ext x
  simp only [contribution?_eq_some_iff, h.outcome_iff binding hbinding, h.index_eq]

theorem contradicts_rebind (h : r.IsVariant r')
    (hbinding : MixedRadix.IsNumeral r.radices binding) :
    r'.contradicts (Slot.rebind r.slots r'.slots binding) = r.contradicts binding := by
  rw [contradicts, contradicts, h.hard_eq,
    decide_eq_decide.mpr (h.outcome_iff binding hbinding [])]

/-- The bindings of one clause are those of the other, taken over by names. -/
theorem numerals_perm (h : r.IsVariant r') :
    ((MixedRadix.numerals r.radices).map (Slot.rebind r.slots r'.slots)).Perm
      (MixedRadix.numerals r'.radices) :=
  Slot.numerals_perm h.slots_perm h.nodup_names

theorem contributions_perm (h : r.IsVariant r') : r'.contributions.Perm r.contributions := by
  have hsame : ((MixedRadix.numerals r.radices).map (Slot.rebind r.slots r'.slots)).filterMap
      r'.contribution? = r.contributions := by
    rw [List.filterMap_map]
    refine List.filterMap_congr fun binding hbinding => ?_
    exact h.contribution?_rebind (MixedRadix.mem_numerals.mp hbinding)
  exact hsame ▸ (h.numerals_perm.filterMap r'.contribution?).symm

/-- A binding that contradicts one of the clauses stands for one that contradicts the other. -/
theorem exists_contradicts (h : r.IsVariant r') {binding' : List Nat}
    (hbinding' : MixedRadix.IsNumeral r'.radices binding')
    (hcontra : r'.contradicts binding' = true) :
    ∃ binding, MixedRadix.IsNumeral r.radices binding ∧ r.contradicts binding = true := by
  have hmem := h.numerals_perm.mem_iff.mpr (MixedRadix.mem_numerals.mpr hbinding')
  obtain ⟨binding, hbinding, rfl⟩ := List.mem_map.mp hmem
  rw [MixedRadix.mem_numerals] at hbinding
  exact ⟨binding, hbinding, (h.contradicts_rebind hbinding).symm.trans hcontra⟩

/-- Without empty domains, the clauses can be counted together. -/
theorem substitutionsBy_eq (h : r.IsVariant r') (hpos : ∀ slot ∈ r.slots, 0 < slot.domain.size)
    (chunkSize : Nat) : r'.substitutionsBy chunkSize = r.substitutionsBy chunkSize := by
  have hradices : r.radices.Perm r'.radices :=
    h.slots_perm.map fun slot : Slot => slot.domain.size
  have hpos' : ∀ size ∈ r.radices, 0 < size := by
    rintro _ hsize
    obtain ⟨slot, hslot, rfl⟩ := List.mem_map.mp hsize
    exact hpos slot hslot
  rw [substitutionsBy, substitutionsBy, substitutions, substitutions,
    count64?_perm hradices hpos', h.index_eq]

end IsVariant

end ResolvedClause

/-! ### Lists of variants -/

section

variable {clauses clauses' : List ResolvedClause}

theorem contributionsOf_perm_of_variants
    (h : List.Forall₂ ResolvedClause.IsVariant clauses clauses') :
    (contributionsOf clauses').Perm (contributionsOf clauses) := by
  rw [contributionsOf_eq_flatMap, contributionsOf_eq_flatMap]
  induction h with
  | nil => exact .refl []
  | cons hvariant _ ih =>
    rw [List.flatMap_cons, List.flatMap_cons]
    exact hvariant.contributions_perm.append ih

/-- Where working through clauses succeeds, so does working through variants of them, in whatever
order, with the same contributions. -/
theorem IsResultOf.exists_ok_of_variants {run : GroundingRun}
    {result : Except GroundingError GroundingRun}
    (hvariants : List.Forall₂ ResolvedClause.IsVariant clauses clauses')
    (h : IsResultOf (substitutionsOf clauses) (.ok run))
    (h' : IsResultOf (substitutionsOf clauses') result) :
    ∃ run', result = .ok run' ∧ run'.contributions.Perm run.contributions := by
  obtain ⟨hnone, -, hcontributions⟩ := h
  cases result with
  | ok run' =>
    obtain ⟨-, -, hcontributions'⟩ := h'
    exact ⟨run', rfl, hcontributions'.trans
      ((contributionsOf_perm_of_variants hvariants).trans hcontributions.symm)⟩
  | error fault =>
    -- the contradiction would have been met in the first clauses as well
    obtain ⟨s, hs, hcontra, -⟩ := h'
    obtain ⟨hclause, hbinding⟩ := mem_substitutionsOf.mp hs
    obtain ⟨r, hr, hvariant⟩ := exists_of_forall₂_of_mem hvariants hclause
    obtain ⟨binding, hbinding, hcontra⟩ := hvariant.exists_contradicts hbinding hcontra
    rw [hnone (r, binding) (mem_substitutionsOf.mpr ⟨hr, hbinding⟩)] at hcontra
    cases hcontra

end

/-! ### Clauses of the same literals -/

section Resolving

variable {e : Evidence} {b : Builtins} {slots slots' : List Slot}

/-- A verdict on one of some literals is one on the same literal over slots in another order. -/
theorem mem_map_judge_of_perm (hperm : slots.Perm slots') (hnodup : (slots.map Slot.name).Nodup)
    {ls ls' : List Literal} {rs rs' : List ResolvedLiteral} (hsub : ∀ l ∈ ls, l ∈ ls')
    (hrs : ls.mapM (Literal.resolve e b slots) = .ok rs)
    (hrs' : ls'.mapM (Literal.resolve e b slots') = .ok rs') (f : Slot → Denotation) {v : Verdict}
    (hv : v ∈ rs.map (ResolvedLiteral.judge (slots.map f))) :
    v ∈ rs'.map (ResolvedLiteral.judge (slots'.map f)) := by
  obtain ⟨r, hr, rfl⟩ := List.mem_map.mp hv
  obtain ⟨l, hl, hresolve⟩ := Except.exists_of_mem_of_mapM_eq_ok hrs hr
  obtain ⟨r', hr', hresolve'⟩ := Except.exists_mem_of_mapM_eq_ok hrs' (hsub l hl)
  obtain ⟨other, hother, hjudge⟩ := Literal.exists_resolve_of_perm hperm hnodup hresolve
  cases hresolve'.symm.trans hother
  exact List.mem_map.mpr ⟨r', hr', hjudge f⟩

/-- Restrictions that can be resolved over slots can be so over the slots in another order, and are
met together. -/
theorem exists_mapM_resolve_of_perm (hperm : slots.Perm slots')
    (hnodup : (slots.map Slot.name).Nodup) {restrictions : List Restriction}
    {rs : List ResolvedRestriction}
    (hrs : restrictions.mapM (Restriction.resolve e b slots) = .ok rs) :
    ∃ rs', restrictions.mapM (Restriction.resolve e b slots') = .ok rs' ∧
      ∀ f : Slot → Denotation,
        rs'.all (·.isMet (slots'.map f)) = rs.all (·.isMet (slots.map f)) := by
  obtain ⟨rs', hrs', hmet⟩ := Except.exists_mapM_eq_ok_of_forall₂
    (List.forall₂_same.mpr fun restriction _ => rfl)
    (fun restriction _ heq _ hr => heq ▸ Restriction.exists_resolve_of_perm hperm hnodup hr) hrs
  refine ⟨rs', hrs', fun f => ?_⟩
  have hsame : rs.map (·.isMet (slots.map f)) = rs'.map (·.isMet (slots'.map f)) := by
    rw [← List.forall₂_eq_eq_eq, List.forall₂_map_left_iff, List.forall₂_map_right_iff]
    exact hmet.imp fun _ _ h => (h f).symm
  have hall := congrArg (List.all · id) hsame
  simp only [List.all_map, Function.id_comp] at hall
  exact hall.symm

end Resolving

namespace Clause.SameLiterals

variable {α : Type} {c c' : Clause α} {e : Evidence} {b : Builtins} {r : ResolvedClause}

/-- Where a clause can be resolved, so can one of the same literals, and the results are variants
of each other. -/
theorem exists_isVariant (h : c.SameLiterals c') (huniform : c.IsUniform)
    (hr : c.resolve e b = .ok r) : ∃ r', c'.resolve e b = .ok r' ∧ r.IsVariant r' := by
  obtain ⟨slots, hslots, hr⟩ := Except.bind_eq_ok_iff.mp hr
  obtain ⟨literals, hliterals, hr⟩ := Except.bind_eq_ok_iff.mp hr
  obtain ⟨restrictions, hrestrictions, hr⟩ := Except.bind_eq_ok_iff.mp hr
  cases hr
  rw [Except.mapError_eq_ok_iff] at hliterals hrestrictions
  obtain ⟨slots', hslots', hperm⟩ := h.exists_slots_perm huniform hslots
  have hnodup : (slots.map Slot.name).Nodup :=
    (slots_eq_ok hslots).1 ▸ nodup_firstOccurrences [] c.occurrences
  have hnodup' : (slots'.map Slot.name).Nodup := (hperm.map Slot.name).nodup_iff.mp hnodup
  -- every literal of the second clause is one of the first and resolves there
  have hresolves : ∀ literal ∈ c'.literals,
      ∃ r', literal.resolve e b slots' = .ok r' ∧ True := by
    intro literal hliteral
    obtain ⟨r, -, hr⟩ :=
      Except.exists_mem_of_mapM_eq_ok hliterals ((h.mem_literals literal).mp hliteral)
    obtain ⟨r', hr', -⟩ := Literal.exists_resolve_of_perm hperm hnodup hr
    exact ⟨r', hr', trivial⟩
  obtain ⟨literals', hliterals', -⟩ := Except.exists_mapM_eq_ok hresolves
  obtain ⟨restrictions', hrestrictions', hmet⟩ :=
    exists_mapM_resolve_of_perm hperm hnodup hrestrictions
  rw [← h.restrictions_eq] at hrestrictions'
  refine ⟨⟨c'.index, c'.isHard, slots', literals', restrictions'⟩, ?_, ?_⟩
  · exact Except.bind_eq_ok_iff.mpr ⟨slots', hslots', Except.bind_eq_ok_iff.mpr
      ⟨literals', Except.mapError_eq_ok_iff.mpr hliterals', Except.bind_eq_ok_iff.mpr
        ⟨restrictions', Except.mapError_eq_ok_iff.mpr hrestrictions', rfl⟩⟩⟩
  · refine ⟨h.index_eq, congrArg Weight.isHard h.weight_eq, hperm, hnodup, ?_⟩
    intro binding hbinding _
    refine ResolvedClause.outcome_rebind_iff hnodup hmet (fun f v => ?_) hbinding
    constructor
    · exact mem_map_judge_of_perm hperm.symm hnodup' (fun l => (h.mem_literals l).mp) hliterals'
        hliterals f
    · exact mem_map_judge_of_perm hperm hnodup (fun l => (h.mem_literals l).mpr) hliterals
        hliterals' f

end Clause.SameLiterals

end LogicNetwork
