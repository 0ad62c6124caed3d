import LogicNetwork.Proofs.Search.Flips

/-!
# Choosing the active constraints

A choice empties the list of bad constraints and goes over all constraints, in order: each becomes
active as the choice has it, and is listed if it is active and bad.  Afterwards the list is right
for the same counts as before, and every constraint that moves can reach is active exactly if it
was chosen (`SearchState.setActive_spec`); no other is active
(`SearchState.isSearchable_of_setActive`).
-/

namespace LogicNetwork.SearchState

variable {α : Type} [WeightArithmetic α] {g : SearchGraph α} {s : SearchState g}
  {c d : Fin g.size} {σ : Type}

/-! ### One constraint -/

theorem active_setActiveAt (chosen : Bool) :
    (s.setActiveAt c chosen).active.get d = if c = d then chosen else s.active.get d := by
  have hset : (s.setActiveAt c chosen).active = s.active.set c chosen := by
    unfold setActiveAt
    dsimp only
    split_ifs <;> rfl
  rw [hset, get_set]

theorem setActiveAt_leaves (chosen : Bool) : (s.setActiveAt c chosen).truth = s.truth ∧
    (s.setActiveAt c chosen).pinned = s.pinned ∧
    (s.setActiveAt c chosen).trueLiterals = s.trueLiterals := by
  unfold setActiveAt
  dsimp only
  split_ifs <;> exact ⟨rfl, rfl, rfl⟩

theorem setActiveAt_spec (h : s.IsTallied) (hc : c ∉ s.bad) (chosen : Bool) :
    (s.setActiveAt c chosen).IsTallied ∧ ∀ d, d ∈ (s.setActiveAt c chosen).bad ↔
      if c = d then chosen = true ∧ s.isGood c = false else d ∈ s.bad := by
  have htallied : { s with active := s.active.set c chosen }.IsTallied :=
    ⟨h.place_eq_some_iff, h.badHard_eq, h.badSoft_eq⟩
  unfold setActiveAt
  dsimp only
  split_ifs with hbad
  · rw [Bool.and_eq_true, Bool.not_eq_true'] at hbad
    refine ⟨htallied.addBad hc, fun d => ?_⟩
    rw [mem_addBad]
    split_ifs with hd
    · exact iff_of_true (.inl hd.symm) hbad
    · exact or_iff_right fun heq => hd heq.symm
  · refine ⟨htallied, fun d => ?_⟩
    split_ifs with hd
    · subst hd
      apply iff_of_false hc
      rintro ⟨hchosen, hgood⟩
      apply hbad
      rw [Bool.and_eq_true, Bool.not_eq_true']
      exact ⟨hchosen, hgood⟩
    · rfl

/-! ### All constraints -/

/-- One step of a choice. -/
def activate (choose : Fin g.size → GraphConstraint α g.atoms → Bool → σ → Bool × σ)
    (found : SearchState g × σ) (c : Fin g.size) : SearchState g × σ :=
  if (g.constraintAt c).isSearchable then
    let (chosen, random) := choose c (g.constraintAt c) (found.1.isGood c) found.2
    (found.1.setActiveAt c chosen, random)
  else (found.1.setActiveAt c false, found.2)

theorem setActive_eq (choose : Fin g.size → GraphConstraint α g.atoms → Bool → σ → Bool × σ)
    (random : σ) : s.setActive choose random =
      (List.finRange g.size).foldl (activate choose) (s.clearBad, random) := by
  unfold setActive
  exact Fin.foldl_eq_finRange_foldl _ _

/-- Whether a constraint is active as a choice had it, put to it where moves can reach. -/
def IsChosen (choose : Fin g.size → GraphConstraint α g.atoms → Bool → σ → Bool × σ)
    (s : SearchState g) (c : Fin g.size) (active : Bool) : Prop :=
  ∃ random : σ, active =
    ((g.constraintAt c).isSearchable && (choose c (g.constraintAt c) (s.isGood c) random).1)

theorem activate_eq (choose : Fin g.size → GraphConstraint α g.atoms → Bool → σ → Bool × σ)
    (found : SearchState g × σ) (c : Fin g.size) :
    ∃ chosen, (activate choose found c).1 = found.1.setActiveAt c chosen ∧
      IsChosen choose found.1 c chosen := by
  unfold activate IsChosen
  split_ifs with hsearchable
  · exact ⟨_, rfl, found.2, by rw [hsearchable, Bool.true_and]⟩
  · rw [Bool.not_eq_true] at hsearchable
    exact ⟨false, rfl, found.2, by rw [hsearchable, Bool.false_and]⟩

theorem foldl_activate_leaves
    (choose : Fin g.size → GraphConstraint α g.atoms → Bool → σ → Bool × σ)
    (found : SearchState g × σ) (cs : List (Fin g.size)) :
    (cs.foldl (activate choose) found).1.truth = found.1.truth ∧
      (cs.foldl (activate choose) found).1.pinned = found.1.pinned ∧
      (cs.foldl (activate choose) found).1.trueLiterals = found.1.trueLiterals := by
  induction cs generalizing found with
  | nil => exact ⟨rfl, rfl, rfl⟩
  | cons c cs ih =>
    obtain ⟨chosen, heq, -⟩ := activate_eq choose found c
    obtain ⟨htruth, hpinned, hcounts⟩ := found.1.setActiveAt_leaves chosen (c := c)
    obtain ⟨htruth', hpinned', hcounts'⟩ := ih (activate choose found c)
    rw [← heq] at htruth hpinned hcounts
    exact ⟨htruth'.trans htruth, hpinned'.trans hpinned, hcounts'.trans hcounts⟩

/-- Steps over constraints that are not listed list those that are chosen and bad. -/
theorem foldl_activate_spec
    (choose : Fin g.size → GraphConstraint α g.atoms → Bool → σ → Bool × σ)
    (found : SearchState g × σ) {cs : List (Fin g.size)} (hnodup : cs.Nodup)
    (h : found.1.IsTallied) (hunlisted : ∀ c ∈ cs, c ∉ found.1.bad) :
    (cs.foldl (activate choose) found).1.IsTallied ∧
      (∀ c, c ∉ cs → (cs.foldl (activate choose) found).1.active.get c = found.1.active.get c ∧
        (c ∈ (cs.foldl (activate choose) found).1.bad ↔ c ∈ found.1.bad)) ∧
      ∀ c ∈ cs, IsChosen choose found.1 c ((cs.foldl (activate choose) found).1.active.get c) ∧
        (c ∈ (cs.foldl (activate choose) found).1.bad ↔
          (cs.foldl (activate choose) found).1.active.get c = true ∧ found.1.isGood c = false) := by
  induction cs generalizing found with
  | nil =>
    refine ⟨h, fun c _ => ⟨rfl, Iff.rfl⟩, fun c hc => ?_⟩
    cases hc
  | cons c cs ih =>
    rw [List.nodup_cons] at hnodup
    obtain ⟨chosen, heq, hchosen⟩ := activate_eq choose found c
    obtain ⟨htallied, hbad⟩ := setActiveAt_spec h (hunlisted c List.mem_cons_self) chosen
    have hactive : ∀ d, (found.1.setActiveAt c chosen).active.get d =
        if c = d then chosen else found.1.active.get d := fun d => active_setActiveAt chosen
    rw [← heq] at htallied hactive hbad
    -- the constraints to come are other ones, and still not listed
    have hother : ∀ d ∈ cs, c ≠ d := fun d hd hcd => hnodup.1 (hcd ▸ hd)
    have hrest : ∀ d ∈ cs, d ∉ (activate choose found c).1.bad := by
      intro d hd
      rw [hbad, if_neg (hother d hd)]
      exact hunlisted d (List.mem_cons_of_mem c hd)
    obtain ⟨htallied', hothers', hcs'⟩ := ih (activate choose found c) hnodup.2 htallied hrest
    have hgood : ∀ d, (activate choose found c).1.isGood d = found.1.isGood d := by
      intro d
      unfold isGood
      rw [heq, (found.1.setActiveAt_leaves chosen).2.2]
    rw [List.foldl_cons]
    refine ⟨htallied', fun d hd => ?_, fun d hd => ?_⟩
    · rw [List.mem_cons, not_or] at hd
      have hcd : c ≠ d := fun hcd => hd.1 hcd.symm
      rw [(hothers' d hd.2).1, (hothers' d hd.2).2, hactive, hbad, if_neg hcd, if_neg hcd]
      exact ⟨rfl, Iff.rfl⟩
    · rcases List.mem_cons.mp hd with rfl | hd
      · -- no later step comes back to this one
        rw [(hothers' d hnodup.1).1, (hothers' d hnodup.1).2, hactive, hbad, if_pos rfl,
          if_pos rfl]
        exact ⟨hchosen, Iff.rfl⟩
      · have hd' := hcs' d hd
        unfold IsChosen at hd' ⊢
        rw [hgood] at hd'
        exact hd'

/-- Choosing leaves assignment, pins and counts alone. -/
theorem setActive_leaves
    (choose : Fin g.size → GraphConstraint α g.atoms → Bool → σ → Bool × σ) (random : σ) :
    (s.setActive choose random).1.truth = s.truth ∧
      (s.setActive choose random).1.pinned = s.pinned ∧
      (s.setActive choose random).1.trueLiterals = s.trueLiterals := by
  rw [setActive_eq]
  exact foldl_activate_leaves choose (s.clearBad, random) (List.finRange g.size)

/-- Choosing lists the bad constraints anew. -/
theorem setActive_spec (h : s.IsTallied)
    (choose : Fin g.size → GraphConstraint α g.atoms → Bool → σ → Bool × σ) (random : σ) :
    (s.setActive choose random).1.IsListed ∧
      ∀ c, IsChosen choose s c ((s.setActive choose random).1.active.get c) := by
  have hempty : ∀ c ∈ List.finRange g.size, c ∉ s.clearBad.bad := fun c _ => Array.not_mem_empty c
  obtain ⟨htallied, -, hall⟩ :=
    foldl_activate_spec choose (s.clearBad, random) (List.nodup_finRange g.size) h.clearBad hempty
  rw [← setActive_eq] at htallied hall
  have hgood : ∀ c, (s.setActive choose random).1.isGood c = s.clearBad.isGood c := by
    intro c
    unfold isGood
    rw [(s.setActive_leaves choose random).2.2]
    rfl
  refine ⟨⟨htallied, fun c => ?_⟩, fun c => ?_⟩
  · rw [hgood]
    exact (hall c (List.mem_finRange c)).2
  · exact (hall c (List.mem_finRange c)).1

/-- Only constraints that moves can reach become active. -/
theorem isSearchable_of_setActive (h : s.IsTallied)
    (choose : Fin g.size → GraphConstraint α g.atoms → Bool → σ → Bool × σ) (random : σ)
    (hc : (s.setActive choose random).1.active.get c = true) :
    (g.constraintAt c).isSearchable = true := by
  obtain ⟨u, hactive⟩ := (setActive_spec h choose random).2 c
  rw [hc] at hactive
  exact (Bool.and_eq_true_iff.mp hactive.symm).1

theorem IsConsistent.setActive (h : s.IsConsistent)
    (choose : Fin g.size → GraphConstraint α g.atoms → Bool → σ → Bool × σ) (random : σ) :
    (s.setActive choose random).1.IsConsistent := by
  obtain ⟨htruth, -, hcounts⟩ := s.setActive_leaves choose random
  apply (setActive_spec h.toIsTallied choose random).1.isConsistent
  rw [htruth, hcounts]
  exact h.trueLiterals_eq

end LogicNetwork.SearchState
