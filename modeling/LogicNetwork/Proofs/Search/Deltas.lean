import Mathlib.Algebra.BigOperators.Group.Finset.Basic
import Mathlib.Algebra.Order.Field.Rat
import LogicNetwork.Proofs.Search.Candidates
import LogicNetwork.Proofs.Search.Costs

/-!
# The change that a flip makes

A search foretells what a flip will do to the charge of the bad active constraints, and reads counts
of true literals for it without changing any.  In a consistent state the charge is a sum over all
constraints (`SearchState.badCharge_eq_sum`), of which a flip changes the parts of the constraints
that the atom occurs in.  As it occurs in each of them once, the count that is foretold is the one
that the flip leaves there, and the change that is foretold is the change
(`SearchState.IsConsistent.delta_eq`).

A second flip of the atom takes everything back but the order of the list
(`SearchState.IsConsistent.isSameAs_flip_flip`).  Weights are exact numbers here, so that the order of
sums does not matter.
-/

namespace LogicNetwork

/-- A sum over some elements is one over more of them, if the others count as zero. -/
theorem sum_map_eq_of_nodup {β M : Type} [DecidableEq β] [AddCommMonoid M] {xs ys : List β}
    (hxs : xs.Nodup) (hys : ys.Nodup) (hsub : ∀ x ∈ xs, x ∈ ys) (f : β → M)
    (hzero : ∀ y ∈ ys, y ∉ xs → f y = 0) : (xs.map f).sum = (ys.map f).sum := by
  rw [← List.sum_toFinset f hxs, ← List.sum_toFinset f hys]
  apply Finset.sum_subset
  · intro x hx
    exact List.mem_toFinset.mpr (hsub x (List.mem_toFinset.mp hx))
  · intro y hy hnot
    exact hzero y (List.mem_toFinset.mp hy) fun hmem => hnot (List.mem_toFinset.mpr hmem)

namespace SearchState

/-! ### The measure of a search -/

section Measures

variable {α : Type} [WeightArithmetic α] {g : SearchGraph α} {s : SearchState g} {c : Fin g.size}

@[simp]
theorem measure_removeBad : (s.removeBad c).measure = s.measure := by
  unfold removeBad
  cases s.place.get c <;> rfl

theorem measure_touch (nowTrue : Bool) : (s.touch c nowTrue).measure = s.measure := by
  rw [touch_eq]
  unfold relist addBad
  split_ifs <;> simp [recount]

/-- A flip does not change how bad constraints are charged. -/
theorem measure_flip (a : Fin g.atoms) : (s.flip a).measure = s.measure := by
  have htouchAll : ∀ (occurrences : List (Fin g.size × Bool)) (value : Bool)
      (s : SearchState g), (s.touchAll value occurrences).measure = s.measure := by
    intro occurrences value
    induction occurrences with
    | nil => exact fun s => rfl
    | cons o occurrences ih => exact fun s => (ih _).trans (measure_touch _)
  rw [flip_eq, htouchAll]
  rfl

theorem chargeOf_flip (a : Fin g.atoms) (c : Fin g.size) :
    (s.flip a).chargeOf c = s.chargeOf c := by
  unfold chargeOf
  rw [measure_flip]

end Measures

/-! ### The charge as a sum -/

variable {g : SearchGraph ℚ} {s t : SearchState g} {c : Fin g.size} {a : Fin g.atoms}

/-- What the bad active constraints are charged together: their number, or the penalty for each hard
one and the sizes of the soft ones. -/
def badCharge (s : SearchState g) : ℚ :=
  match s.measure with
  | .count => s.bad.size
  | .weighted => g.hardPenalty * s.badHard + s.badSoft

/-- What a constraint is charged, if it is active and has so many true literals. -/
def chargeWith (s : SearchState g) (c : Fin g.size) (trueLiterals : Nat) : ℚ :=
  if s.active.get c && !(g.constraintAt c).weight.isGood trueLiterals then s.chargeOf c else 0

/-- Charges by weight add up to the penalties of the hard constraints and the sizes of the others. -/
theorem sum_chargeOf_of_weighted (hmeasure : s.measure = .weighted) (cs : List (Fin g.size)) :
    (cs.map s.chargeOf).sum = g.hardPenalty * cs.countP g.isHardAt + g.softSizes cs := by
  have hcharge : ∀ c, s.chargeOf c =
      if g.isHardAt c then g.hardPenalty else (g.constraintAt c).weight.softSize := by
    intro c
    unfold chargeOf
    rw [hmeasure]
    rfl
  induction cs with
  | nil =>
    show (0 : ℚ) = g.hardPenalty * ((0 : Nat) : ℚ) + 0
    simp
  | cons c cs ih =>
    rw [List.map_cons, List.sum_cons, ih, hcharge, SearchGraph.softSizes_cons, List.countP_cons]
    split_ifs
    · push_cast
      ring
    · push_cast
      ring

theorem badCharge_eq_sum_bad (h : s.IsTallied) :
    s.badCharge = (s.bad.toList.map s.chargeOf).sum := by
  unfold badCharge
  cases hmeasure : s.measure with
  | count =>
    have hone : ∀ c ∈ s.bad.toList, s.chargeOf c = 1 := by
      intro c _
      unfold chargeOf
      rw [hmeasure]
    rw [List.map_congr_left hone]
    simp
  | weighted =>
    rw [sum_chargeOf_of_weighted hmeasure, h.badHard_eq, h.badSoft_eq isExact_rat]

/-- The charge is a sum over all constraints, in which good ones and others count as zero. -/
theorem badCharge_eq_sum (h : s.IsConsistent) : s.badCharge =
    ((List.finRange g.size).map fun c => s.chargeWith c (s.trueLiterals.get c)).sum := by
  rw [badCharge_eq_sum_bad h.toIsTallied, (h.perm_bad.map s.chargeOf).sum_eq, sum_map_filter]
  refine congrArg List.sum (List.map_congr_left fun c _ => ?_)
  rw [chargeWith, ← isGood_eq_isGoodIn h.trueLiterals_eq]
  rfl

/-! ### What is foretold -/

/-- How many literals of a constraint are foretold to be true after an atom with a literal in it
flips. -/
def countAfter (s : SearchState g) (a : Fin g.atoms) (c : Fin g.size) (positive : Bool) : Nat :=
  if positive == s.truth.get a then s.trueLiterals.get c - 1 else s.trueLiterals.get c + 1

theorem delta_eq_sum (s : SearchState g) (a : Fin g.atoms) : s.delta a =
    ((g.occurrences.get a).map fun o => s.chargeWith o.1 (s.countAfter a o.1 o.2) -
      s.chargeWith o.1 (s.trueLiterals.get o.1)).sum := by
  unfold delta
  refine (measure_foldl_eq_add_sum (m := id) ?_ (g.occurrences.get a) 0).trans (zero_add _)
  rintro sum ⟨c, positive⟩
  show (if s.active.get c = true then _ else sum : ℚ) = sum + (_ - _)
  unfold chargeWith countAfter
  cases s.active.get c with
  | false => simp
  | true =>
    dsimp only
    cases (g.constraintAt c).weight.isGood (s.trueLiterals.get c) <;>
      cases (g.constraintAt c).weight.isGood (if positive == s.truth.get a then
        s.trueLiterals.get c - 1 else s.trueLiterals.get c + 1) <;>
      simp [sub_eq_add_neg]

/-- The counts that a flip leaves, by the occurrences of the atom. -/
theorem IsConsistent.trueLiterals_flip_add (hg : g.IsIndexed) (h : s.IsConsistent)
    (c : Fin g.size) (a : Fin g.atoms) :
    (s.flip a).trueLiterals.get c + (g.occurrences.get a).count (c, s.truth.get a) =
      s.trueLiterals.get c + (g.occurrences.get a).count (c, !s.truth.get a) := by
  have hflip := (h.flip_and_flip? hg a).1
  rw [hflip.trueLiterals_eq, h.trueLiterals_eq, hg, hg]
  exact s.trueLiterals_flip c a

/-- What is foretold of a constraint is what the flip leaves there. -/
theorem countAfter_eq (hg : g.IsIndexed) (hatoms : g.HasDistinctAtoms) (h : s.IsConsistent)
    {positive : Bool} (ho : (c, positive) ∈ g.occurrences.get a) :
    s.countAfter a c positive = (s.flip a).trueLiterals.get c := by
  have hsides := h.trueLiterals_flip_add hg c a
  -- the literal is the only one over the atom
  have hone := hatoms.count_add_count_le c a (s.truth.get a)
  rw [← hg, ← hg] at hone
  have hpos := List.count_pos_iff.mpr ho
  unfold countAfter
  by_cases hvalue : positive = s.truth.get a
  · subst hvalue
    rw [beq_self_eq_true, if_pos rfl]
    omega
  · rw [Bool.eq_not.mpr hvalue] at hpos ⊢
    rw [if_neg (by simp)]
    omega

/-- A flip leaves the counts of the constraints that the atom does not occur in. -/
theorem trueLiterals_flip_of_not_mem (hg : g.IsIndexed) (h : s.IsConsistent)
    (hc : c ∉ (g.occurrences.get a).map Prod.fst) :
    (s.flip a).trueLiterals.get c = s.trueLiterals.get c := by
  have hsides := h.trueLiterals_flip_add hg c a
  have hzero := List.count_eq_zero.mpr hc
  rw [count_map_fst _ c (s.truth.get a)] at hzero
  omega

/-- What a flip is foretold to change is what it changes. -/
theorem IsConsistent.delta_eq (hg : g.IsIndexed) (hatoms : g.HasDistinctAtoms)
    (h : s.IsConsistent) (a : Fin g.atoms) : s.delta a = (s.flip a).badCharge - s.badCharge := by
  have hflip := (h.flip_and_flip? hg a).1
  let change (c : Fin g.size) : ℚ := s.chargeWith c ((s.flip a).trueLiterals.get c) -
    s.chargeWith c (s.trueLiterals.get c)
  have hcharge : ∀ c, (s.flip a).chargeWith c ((s.flip a).trueLiterals.get c) =
      s.chargeWith c ((s.flip a).trueLiterals.get c) := by
    intro c
    unfold chargeWith
    rw [flip_leaves.2.2, chargeOf_flip]
  have hforetold : s.delta a = (((g.occurrences.get a).map Prod.fst).map change).sum := by
    rw [delta_eq_sum, List.map_map]
    refine congrArg List.sum (List.map_congr_left fun o ho => ?_)
    rw [countAfter_eq hg hatoms h ho]
    rfl
  have hmade : (s.flip a).badCharge - s.badCharge =
      ((List.finRange g.size).map change).sum := by
    rw [badCharge_eq_sum hflip, badCharge_eq_sum h, sum_map_sub]
    refine congrArg List.sum (List.map_congr_left fun c _ => ?_)
    rw [hcharge]
  rw [hforetold, hmade]
  apply sum_map_eq_of_nodup (hg.nodup_occurrences hatoms a) (List.nodup_finRange g.size)
  · exact fun c _ => List.mem_finRange c
  · intro c _ hc
    show s.chargeWith c _ - s.chargeWith c _ = 0
    rw [trueLiterals_flip_of_not_mem hg h hc, sub_self]

/-! ### Flipping back -/

/-- Whether two states have the same assignment and the same bookkeeping, apart from the order of the
list of bad constraints. -/
structure IsSameAs (t s : SearchState g) : Prop where
  measure_eq : t.measure = s.measure
  truth_eq : t.truth = s.truth
  pinned_eq : t.pinned = s.pinned
  trueLiterals_eq : t.trueLiterals = s.trueLiterals
  active_eq : t.active = s.active
  perm_bad : t.bad.toList.Perm s.bad.toList
  badHard_eq : t.badHard = s.badHard
  badSoft_eq : t.badSoft = s.badSoft

/-- The assignment and the active constraints determine the bookkeeping. -/
theorem IsConsistent.isSameAs (ht : t.IsConsistent) (hs : s.IsConsistent)
    (hmeasure : t.measure = s.measure) (htruth : t.truth = s.truth)
    (hpinned : t.pinned = s.pinned) (hactive : t.active = s.active) : t.IsSameAs s := by
  have hperm : t.bad.toList.Perm s.bad.toList := by
    have hlisted := ht.perm_bad
    rw [htruth, hactive] at hlisted
    exact hlisted.trans hs.perm_bad.symm
  refine ⟨hmeasure, htruth, hpinned, ?_, hactive, hperm, ?_, ?_⟩
  · apply Vector.ext
    intro c hc
    have hcount := ht.trueLiterals_eq ⟨c, hc⟩
    rw [htruth, ← hs.trueLiterals_eq] at hcount
    exact hcount
  · rw [ht.badHard_eq, hs.badHard_eq, hperm.countP_eq]
  · rw [ht.badSoft_eq isExact_rat, hs.badSoft_eq isExact_rat,
      SearchGraph.softSizes_perm isExact_rat hperm]

theorem IsConsistent.isSameAs_flip_flip (hg : g.IsIndexed) (h : s.IsConsistent)
    (a : Fin g.atoms) : ((s.flip a).flip a).IsSameAs s := by
  have honce := (h.flip_and_flip? hg a).1
  have htwice := (honce.flip_and_flip? hg a).1
  apply htwice.isSameAs h
  · rw [measure_flip, measure_flip]
  · apply Vector.ext
    intro b hb
    show ((s.flip a).flip a).truth.get ⟨b, hb⟩ = s.truth.get ⟨b, hb⟩
    rw [truth_flip, truth_flip]
    split_ifs
    · exact Bool.not_not _
    · rfl
  · rw [flip_leaves.2.1, flip_leaves.2.1]
  · rw [flip_leaves.2.2, flip_leaves.2.2]

/-- In the graph of a network that comes from a grounding, and in any state that a search reaches
there, the change that is foretold of a flip is the one that the flip makes to the charge of the bad
active constraints, in either measure; and a second flip takes everything back. -/
theorem delta_predicts_flip {chunkSize : Nat} {b : Builtins} {e : Evidence}
    {clauses : List (Clause ℚ)} {query : List Signature} {n m : Network ℚ}
    (h : Network.ground chunkSize b e clauses query = .ok n) (hm : n.Reaches m)
    {s : SearchState (SearchGraph.ofNetwork m)} (hs : Reachable s)
    (a : Fin (SearchGraph.ofNetwork m).atoms) :
    s.delta a = (s.flip a).badCharge - s.badCharge ∧ ((s.flip a).flip a).IsSameAs s := by
  have hg := SearchGraph.isIndexed_ofNetwork m
  have hatoms := Network.hasDistinctAtoms_of_ground h hm
  obtain ⟨hconsistent, -⟩ := hs.isConsistent hg
  exact ⟨hconsistent.delta_eq hg hatoms a, hconsistent.isSameAs_flip_flip hg a⟩

/-- On the small theory, a flip takes a hard constraint off the list, and a second flip puts it back
at another place. -/
theorem delta_predicts_flip_weather :
    ∃ n, Network.ground 1 ⟨[], []⟩ Weather.evidence Weather.clauses [] = .ok n ∧ n.Reaches n ∧
      ∃ (s : SearchState (SearchGraph.ofNetwork n)) (a : Fin (SearchGraph.ofNetwork n).atoms),
        Reachable s ∧ s.badCharge = 15 / 2 ∧ s.delta a = -9 / 2 ∧
        s.bad.toList.map Fin.val = [2, 1] ∧
        ((s.flip a).flip a).bad.toList.map Fin.val = [1, 2] ∧
        s.delta a = (s.flip a).badCharge - s.badCharge ∧ ((s.flip a).flip a).IsSameAs s := by
  have hsearch : ((Network.ground 1 ⟨[], []⟩ Weather.evidence Weather.clauses []).toOption.any
      fun n =>
        let g := SearchGraph.ofNetwork n
        if h : 1 < g.atoms then
          let s := shortSearch g ⟨1, h⟩
          decide (s.badCharge = 15 / 2 ∧ s.delta ⟨1, h⟩ = -9 / 2 ∧
            s.bad.toList.map Fin.val = [2, 1] ∧
            ((s.flip ⟨1, h⟩).flip ⟨1, h⟩).bad.toList.map Fin.val = [1, 2])
        else false) = true := by
    decide +kernel
  obtain ⟨n, hn, hsearch⟩ := Except.any_toOption_iff.mp hsearch
  dsimp only at hsearch
  split_ifs at hsearch with hatoms
  obtain ⟨hcharge, hdelta, hbad, hback⟩ := decide_eq_true_iff.mp hsearch
  have hreachable := reachable_shortSearch (SearchGraph.ofNetwork n) ⟨1, hatoms⟩
  exact ⟨n, hn, .refl, _, ⟨1, hatoms⟩, hreachable, hcharge, hdelta, hbad, hback,
    delta_predicts_flip hn .refl hreachable ⟨1, hatoms⟩⟩

end SearchState

end LogicNetwork
