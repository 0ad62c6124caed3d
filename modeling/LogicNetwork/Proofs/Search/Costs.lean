import LogicNetwork.Proofs.Network.Graph
import LogicNetwork.Proofs.Search.Reachable

/-!
# Costs of states

If sums are exact, costs are compared like pairs of numbers, and not to be worse is an order
(`Cost.isBelow_iff`).  A search follows the cost of the active constraints only, which leaves out
those that moves cannot reach.  As nothing is charged less than zero, this is never more than the
full cost (`SearchState.IsConsistent.activeCost_isBelow_fullCost`), which is what the network is
charged in the states of the assignment (`Network.HasSlots.costOf_eq`).
-/

namespace LogicNetwork

variable {α : Type} [WeightArithmetic α]

/-! ### The order of costs -/

namespace Cost

variable {a b c : Cost α}

/-- Whether another cost is not better. -/
def IsBelow (a b : Cost α) : Prop :=
  b.isBetterThan a = false

theorem isBetterThan_iff :
    a.isBetterThan b = true ↔ a.hard < b.hard ∨ a.hard = b.hard ∧ a.soft < b.soft := by
  simp [isBetterThan]

theorem isBelow_iff (hexact : IsExactOrder α) :
    a.IsBelow b ↔ a.hard < b.hard ∨ a.hard = b.hard ∧ a.soft ≤ b.soft := by
  rw [IsBelow, ← Bool.not_eq_true, isBetterThan_iff, hexact.lt_iff_not_le]
  constructor
  · intro h
    rcases Nat.lt_trichotomy a.hard b.hard with hlt | heq | hgt
    · exact .inl hlt
    · exact .inr ⟨heq, not_not.mp fun hsoft => h (.inr ⟨heq.symm, hsoft⟩)⟩
    · exact absurd (.inl hgt) h
  · rintro (hlt | ⟨heq, hsoft⟩) (hgt | ⟨heq', hgt⟩)
    · omega
    · omega
    · omega
    · exact hgt hsoft

theorem IsBelow.refl (hexact : IsExactOrder α) (a : Cost α) : a.IsBelow a :=
  (isBelow_iff hexact).mpr (.inr ⟨rfl, hexact.le_refl a.soft⟩)

theorem IsBelow.trans (hexact : IsExactOrder α) (hab : a.IsBelow b) (hbc : b.IsBelow c) :
    a.IsBelow c := by
  rw [isBelow_iff hexact] at *
  rcases hab with hab | ⟨hab, hsoft⟩ <;> rcases hbc with hbc | ⟨hbc, hsoft'⟩
  · exact .inl (by omega)
  · exact .inl (by omega)
  · exact .inl (by omega)
  · exact .inr ⟨hab.trans hbc, hexact.le_trans _ _ _ hsoft hsoft'⟩

theorem isBelow_of_isBetterThan (hexact : IsExactOrder α) (h : a.isBetterThan b = true) :
    a.IsBelow b := by
  rw [isBelow_iff hexact]
  rcases isBetterThan_iff.mp h with hlt | ⟨heq, hsoft⟩
  · exact .inl hlt
  · exact .inr ⟨heq, hexact.le_of_lt hsoft⟩

theorem isBelow_of_le (hexact : IsExactOrder α) (hhard : a.hard ≤ b.hard)
    (hsoft : a.soft ≤ b.soft) : a.IsBelow b := by
  rw [isBelow_iff hexact]
  rcases Nat.lt_or_eq_of_le hhard with hlt | heq
  · exact .inl hlt
  · exact .inr ⟨heq, hsoft⟩

theorem IsBelow.hard_le (hexact : IsExactOrder α) (h : a.IsBelow b) : a.hard ≤ b.hard := by
  rcases (isBelow_iff hexact).mp h with hlt | ⟨heq, -⟩
  · omega
  · omega

/-! ### Charges -/

theorem charge_eq (c : Cost α) (w : GroundWeight α) : (c.charge w).hard =
      (if w.isHard then c.hard + 1 else c.hard) ∧
    (c.charge w).soft = if w.isHard then c.soft else c.soft + w.softSize := by
  cases w <;> exact ⟨rfl, rfl⟩

end Cost

/-! ### Charges of an assignment -/

namespace SearchGraph

variable {g : SearchGraph α} {truth : Vector Bool g.atoms}

/-- A cost with the charge for a constraint in an assignment. -/
def chargeAt (truth : Vector Bool g.atoms) (cost : Cost α) (c : Fin g.size) : Cost α :=
  cost.chargeFor (g.constraintAt c).weight ((g.constraintAt c).trueLiterals truth)

omit [WeightArithmetic α] in
theorem toList_constraints (g : SearchGraph α) :
    g.constraints.toList = (List.finRange g.size).map g.constraintAt := by
  apply List.ext_getElem
  · simp
  · intro i hi hi'
    rw [List.getElem_map, List.getElem_finRange, Array.getElem_toList]
    rfl

theorem costOf_eq (truth : Vector Bool g.atoms) :
    g.costOf truth = (List.finRange g.size).foldl (chargeAt truth) .zero := by
  rw [costOf, ← Array.foldl_toList, toList_constraints, List.foldl_map]
  rfl

/-- Whether an assignment is charged for a constraint. -/
def IsCharged (truth : Vector Bool g.atoms) (c : Fin g.size) : Prop :=
  (g.constraintAt c).weight.isZero = false ∧ (g.constraintAt c).isGoodIn truth = false

theorem IsCharged.chargeAt_eq {c : Fin g.size} (h : IsCharged truth c) (cost : Cost α) :
    chargeAt truth cost c = cost.charge (g.constraintAt c).weight := by
  obtain ⟨hzero, hbad⟩ := h
  rw [GraphConstraint.isGoodIn] at hbad
  rw [chargeAt, Cost.chargeFor, hzero, hbad]
  rfl

/-! #### Counts and sums of charges -/

theorem softSizes_append (hexact : IsExact α) (cs ds : List (Fin g.size)) :
    g.softSizes (cs ++ ds) = g.softSizes cs + g.softSizes ds := by
  induction cs with
  | nil => exact (hexact.zero_add _).symm
  | cons c cs ih =>
    rw [List.cons_append, softSizes_cons, softSizes_cons, ih]
    split_ifs
    · rfl
    · exact (hexact.add_assoc _ _ _).symm

theorem softSizes_le_of_sublist (hexact : IsExactOrder α) {cs ds : List (Fin g.size)}
    (h : cs.Sublist ds) : g.softSizes cs ≤ g.softSizes ds := by
  induction h with
  | slnil => exact hexact.le_refl _
  | @cons cs ds c _ ih =>
    rw [softSizes_cons]
    split_ifs
    · exact ih
    · refine hexact.le_trans _ _ _ ih ?_
      rw [hexact.add_comm]
      cases (g.constraintAt c).weight with
      | hard wantsTrue =>
        show g.softSizes ds ≤ g.softSizes ds + 0
        rw [hexact.add_comm, hexact.zero_add]
        exact hexact.le_refl _
      | soft w => exact hexact.le_add_abs _ _
  | @cons_cons cs ds c _ ih =>
    rw [softSizes_cons, softSizes_cons]
    split_ifs
    · exact ih
    · rw [hexact.add_comm _ (g.softSizes cs), hexact.add_comm _ (g.softSizes ds)]
      exact hexact.add_le_add_right _ _ _ ih

theorem softSizes_nonneg (hexact : IsExactOrder α) (cs : List (Fin g.size)) :
    0 ≤ g.softSizes cs :=
  softSizes_le_of_sublist hexact (List.nil_sublist cs)

/-- Whether a constraint costs something in an assignment. -/
def charges (truth : Vector Bool g.atoms) (c : Fin g.size) : Bool :=
  !(g.constraintAt c).weight.isZero && !(g.constraintAt c).isGoodIn truth

/-- Constraints are charged by the number of hard ones and the sizes of soft ones among those that
cost something. -/
theorem foldl_chargeAt_eq (hexact : IsExact α) (truth : Vector Bool g.atoms)
    (cs : List (Fin g.size)) (cost : Cost α) :
    (cs.foldl (chargeAt truth) cost).hard =
        cost.hard + (cs.filter (charges truth)).countP g.isHardAt ∧
      (cs.foldl (chargeAt truth) cost).soft =
        cost.soft + g.softSizes (cs.filter (charges truth)) := by
  induction cs generalizing cost with
  | nil =>
    refine ⟨rfl, ?_⟩
    show cost.soft = cost.soft + 0
    rw [hexact.add_comm, hexact.zero_add]
  | cons c cs ih =>
    obtain ⟨hhard, hsoft⟩ := ih (chargeAt truth cost c)
    rw [List.foldl_cons, List.filter_cons, hhard, hsoft]
    cases hcharges : charges truth c with
    | false =>
      -- what is not charged for leaves the cost as it is
      have hsame : chargeAt truth cost c = cost := by
        rw [charges, ← Bool.not_or, Bool.not_eq_false'] at hcharges
        exact if_pos hcharges
      rw [hsame]
      exact ⟨rfl, rfl⟩
    | true =>
      rw [charges, Bool.and_eq_true, Bool.not_eq_true', Bool.not_eq_true'] at hcharges
      have hcharged : IsCharged truth c := hcharges
      obtain ⟨hhard', hsoft'⟩ := cost.charge_eq (g.constraintAt c).weight
      rw [hcharged.chargeAt_eq, hhard', hsoft', if_pos rfl, List.countP_cons, softSizes_cons,
        isHardAt]
      split_ifs
      · exact ⟨by omega, rfl⟩
      · exact ⟨by omega, hexact.add_assoc _ _ _⟩

theorem foldl_chargeAt_zero (hexact : IsExact α) (truth : Vector Bool g.atoms)
    (cs : List (Fin g.size)) :
    (cs.foldl (chargeAt truth) .zero).hard = (cs.filter (charges truth)).countP g.isHardAt ∧
      (cs.foldl (chargeAt truth) .zero).soft = g.softSizes (cs.filter (charges truth)) := by
  obtain ⟨hhard, hsoft⟩ := foldl_chargeAt_eq hexact truth cs .zero
  rw [show (Cost.zero : Cost α).hard = 0 from rfl, Nat.zero_add] at hhard
  rw [show (Cost.zero : Cost α).soft = 0 from rfl, hexact.zero_add] at hsoft
  exact ⟨hhard, hsoft⟩

/-- An assignment is charged at least for some of the constraints that it is charged for. -/
theorem le_costOf (hexact : IsExactOrder α) {chosen : Fin g.size → Bool}
    (hchosen : ∀ c, chosen c = true → IsCharged truth c) :
    ((List.finRange g.size).filter chosen).countP g.isHardAt ≤ (g.costOf truth).hard ∧
      g.softSizes ((List.finRange g.size).filter chosen) ≤ (g.costOf truth).soft := by
  have hsublist : ((List.finRange g.size).filter chosen).Sublist
      ((List.finRange g.size).filter (charges truth)) := by
    apply List.monotone_filter_right
    intro c hc
    obtain ⟨hzero, hbad⟩ := hchosen c hc
    rw [charges, hzero, hbad]
    rfl
  obtain ⟨hhard, hsoft⟩ := foldl_chargeAt_zero hexact.toIsExact truth (List.finRange g.size)
  rw [costOf_eq, hhard, hsoft]
  exact ⟨hsublist.countP_le, softSizes_le_of_sublist hexact hsublist⟩

theorem costOf_soft_nonneg (hexact : IsExactOrder α) (truth : Vector Bool g.atoms) :
    0 ≤ (g.costOf truth).soft := by
  rw [costOf_eq, (foldl_chargeAt_zero hexact.toIsExact truth (List.finRange g.size)).2]
  exact softSizes_nonneg hexact _

end SearchGraph

/-! ### Costs that a search follows -/

namespace SearchState

variable {g : SearchGraph α} {s : SearchState g}

/-- The list of bad constraints, in the order of the constraints. -/
theorem IsConsistent.perm_bad (h : s.IsConsistent) : s.bad.toList.Perm
    ((List.finRange g.size).filter fun c =>
      s.active.get c && !(g.constraintAt c).isGoodIn s.truth) := by
  refine (List.perm_ext_iff_of_nodup h.nodup_bad ((List.nodup_finRange g.size).filter _)).mpr
    fun c => ?_
  rw [Array.mem_toList_iff, h.mem_bad_iff, List.mem_filter, Bool.and_eq_true, Bool.not_eq_true']
  exact (and_iff_right (List.mem_finRange c)).symm

/-- If moves can reach all active constraints, the cost that is followed is no more than the full
cost. -/
theorem IsConsistent.activeCost_isBelow_fullCost (hexact : IsExactOrder α) (h : s.IsConsistent)
    (hactive : ∀ c, s.active.get c = true → (g.constraintAt c).isSearchable = true) :
    s.activeCost.IsBelow s.fullCost := by
  have hchosen : ∀ c, (s.active.get c && !(g.constraintAt c).isGoodIn s.truth) = true →
      SearchGraph.IsCharged s.truth c := by
    intro c hc
    rw [Bool.and_eq_true, Bool.not_eq_true'] at hc
    have hsearchable := hactive c hc.1
    rw [GraphConstraint.isSearchable, Bool.and_eq_true, Bool.not_eq_true',
      Bool.not_eq_true'] at hsearchable
    exact ⟨hsearchable.2, hc.2⟩
  obtain ⟨hhard, hsoft⟩ := SearchGraph.le_costOf hexact hchosen
  rw [← h.perm_bad.countP_eq, ← h.badHard_eq] at hhard
  rw [← SearchGraph.softSizes_perm hexact.toIsExact h.perm_bad,
    ← h.badSoft_eq hexact.toIsExact] at hsoft
  apply Cost.isBelow_of_le hexact hhard
  rw [activeCost]
  split_ifs
  · exact hsoft
  · exact SearchGraph.costOf_soft_nonneg hexact s.truth

end SearchState

/-! ### Costs of a network -/

/-- An assignment of the graph is charged what the network is in its states. -/
theorem Network.HasSlots.costOf_eq {n : Network α} (h : n.HasSlots)
    (truth : Vector Bool n.atoms.size) :
    (SearchGraph.ofNetwork n).costOf truth = (n.setStates truth.toArray).cost := by
  have hfold : (SearchGraph.ofNetwork n).costOf truth =
      (n.constraints.map (SearchGraph.constraintOf n)).foldl
        (fun cost c => cost.chargeFor c.weight (c.trueLiterals truth)) .zero :=
    List.foldl_toArray _ _ _
  rw [hfold, List.foldl_map]
  apply List.foldl_ext
  intro cost d hd
  rw [h.trueLiterals_constraintOf hd truth]
  rfl

end LogicNetwork
