import Mathlib.Algebra.Order.Field.Rat
import LogicNetwork.Proofs.Search.Deltas

/-!
# Penalties and costs

A weighted search adds up what the order of costs keeps apart: it charges a violated hard constraint
a penalty, which is one more than the sizes of all soft weights together.  No soft part comes up to
the penalty, so the sum orders costs as pairs (`SearchGraph.weigh_lt_iff`).

The least harmful of some atoms is the one whose flip changes the sum least
(`SearchState.delta_leastHarmful_le`).  So the flip of a greedy walk step leaves an active cost that
no other candidate betters (`SearchState.greedy_flip_unbeaten`).  Weights are exact numbers here.
-/

namespace LogicNetwork

/-! ### Sums of penalties and sizes -/

namespace SearchGraph

variable {g : SearchGraph ℚ} {x y : Cost ℚ}

/-- What a weighted search makes of a cost. -/
def weigh (g : SearchGraph ℚ) (cost : Cost ℚ) : ℚ :=
  g.hardPenalty * cost.hard + cost.soft

/-- Whether the soft part of a cost is not negative and below the penalty. -/
structure Fits (g : SearchGraph ℚ) (cost : Cost ℚ) : Prop where
  nonneg : 0 ≤ cost.soft
  lt_hardPenalty : cost.soft < g.hardPenalty

theorem weigh_lt_of_hard_lt (hx : g.Fits x) (hy : g.Fits y) (hlt : x.hard < y.hard) :
    g.weigh x < g.weigh y := by
  have hpenalty : 0 ≤ g.hardPenalty := hx.nonneg.trans hx.lt_hardPenalty.le
  have hone : (x.hard : ℚ) + 1 ≤ y.hard := by exact_mod_cast hlt
  calc g.weigh x < g.hardPenalty * x.hard + g.hardPenalty :=
        (add_lt_add_iff_left _).mpr hx.lt_hardPenalty
    _ = g.hardPenalty * (x.hard + 1) := by ring
    _ ≤ g.hardPenalty * y.hard := mul_le_mul_of_nonneg_left hone hpenalty
    _ ≤ g.weigh y := le_add_of_nonneg_right hy.nonneg

/-- The sum orders costs as pairs. -/
theorem weigh_lt_iff (hx : g.Fits x) (hy : g.Fits y) :
    g.weigh x < g.weigh y ↔ x.isBetterThan y = true := by
  rw [Cost.isBetterThan_iff]
  rcases Nat.lt_trichotomy x.hard y.hard with hlt | heq | hgt
  · exact iff_of_true (weigh_lt_of_hard_lt hx hy hlt) (.inl hlt)
  · unfold weigh
    rw [heq, add_lt_add_iff_left]
    constructor
    · intro hsoft
      exact .inr ⟨rfl, hsoft⟩
    · rintro (hhard | ⟨-, hsoft⟩)
      · omega
      · exact hsoft
  · apply iff_of_false (weigh_lt_of_hard_lt hy hx hgt).not_gt
    omega

/-! ### The penalty of a graph -/

/-- Whether the penalty is one more than the sizes of all soft weights together. -/
def IsPenalized (g : SearchGraph ℚ) : Prop :=
  g.hardPenalty = g.softSizes (List.finRange g.size) + 1

theorem softTotal_eq {atoms : Nat} (constraints : Array (GraphConstraint ℚ atoms)) :
    softTotal constraints = (ofConstraints atoms constraints).softSizes
      (List.finRange (ofConstraints atoms constraints).size) := by
  let g := ofConstraints atoms constraints
  have hfold : ∀ (cs : List (Fin g.size)) (x : ℚ),
      (cs.map g.constraintAt).foldl
        (fun x c => if c.weight.isHard then x else x + c.weight.softSize) x =
      x + g.softSizes cs := by
    intro cs
    induction cs with
    | nil => exact fun x => (add_zero x).symm
    | cons c cs ih =>
      intro x
      rw [List.map_cons, List.foldl_cons, ih, softSizes_cons, isHardAt]
      split_ifs
      · rfl
      · exact add_assoc _ _ _
  unfold softTotal
  rw [← Array.foldl_toList]
  exact (congrArg (List.foldl _ 0) g.toList_constraints).trans ((hfold _ 0).trans (zero_add _))

theorem isPenalized_ofConstraints (atoms : Nat) (constraints : Array (GraphConstraint ℚ atoms)) :
    (ofConstraints atoms constraints).IsPenalized :=
  congrArg (· + 1) (softTotal_eq constraints)

theorem isPenalized_ofNetwork (n : Network ℚ) : (ofNetwork n).IsPenalized :=
  isPenalized_ofConstraints n.atoms.size _

/-- The soft weights of some constraints stay below the penalty. -/
theorem IsPenalized.fits (hg : g.IsPenalized) {chosen : Fin g.size → Bool}
    (hx : x.soft = g.softSizes ((List.finRange g.size).filter chosen)) : g.Fits x := by
  have hle := softSizes_le_of_sublist isExactOrder_rat
    (List.filter_sublist (p := chosen) (l := List.finRange g.size))
  refine ⟨?_, ?_⟩
  · rw [hx]
    exact softSizes_nonneg isExactOrder_rat _
  · rw [hx, hg]
    exact lt_of_le_of_lt hle (lt_add_one _)

theorem IsPenalized.fits_costOf (hg : g.IsPenalized) (truth : Vector Bool g.atoms) :
    g.Fits (g.costOf truth) := by
  have hsoft : (g.costOf truth).soft =
      g.softSizes ((List.finRange g.size).filter (charges truth)) := by
    rw [costOf_eq]
    exact (foldl_chargeAt_zero isExact_rat truth (List.finRange g.size)).2
  exact hg.fits hsoft

end SearchGraph

namespace SearchState

variable {g : SearchGraph ℚ} {s : SearchState g} {a b : Fin g.atoms}

theorem soft_activeCost (h : s.IsTallied) : s.activeCost.soft = s.badSoft := by
  have hnonneg : 0 ≤ s.badSoft := by
    rw [h.badSoft_eq isExact_rat]
    exact SearchGraph.softSizes_nonneg isExactOrder_rat _
  unfold activeCost
  split_ifs with hpos
  · rfl
  · exact le_antisymm hnonneg (not_lt.mp hpos)

theorem fits_activeCost (hg : g.IsPenalized) (h : s.IsConsistent) : g.Fits s.activeCost := by
  apply hg.fits
  rw [soft_activeCost h.toIsTallied, h.badSoft_eq isExact_rat]
  exact SearchGraph.softSizes_perm isExact_rat h.perm_bad

theorem badCharge_of_weighted (h : s.IsTallied) (hmeasure : s.measure = .weighted) :
    s.badCharge = g.weigh s.activeCost := by
  unfold badCharge SearchGraph.weigh
  rw [hmeasure, soft_activeCost h]
  rfl

/-- In a weighted search, a flip that is foretold to do no more harm than another one leaves an
active cost that the other does not better. -/
theorem isBelow_of_delta_le (hg : g.IsIndexed) (hatoms : g.HasDistinctAtoms)
    (hpenalized : g.IsPenalized) (h : s.IsConsistent) (hmeasure : s.measure = .weighted)
    (hle : s.delta a ≤ s.delta b) : (s.flip a).activeCost.IsBelow (s.flip b).activeCost := by
  have ha := (h.flip_and_flip? hg a).1
  have hb := (h.flip_and_flip? hg b).1
  have hcharge : (s.flip a).badCharge ≤ (s.flip b).badCharge := by
    rw [h.delta_eq hg hatoms a, h.delta_eq hg hatoms b] at hle
    exact (sub_le_sub_iff_right s.badCharge).mp hle
  rw [badCharge_of_weighted ha.toIsTallied ((measure_flip a).trans hmeasure),
    badCharge_of_weighted hb.toIsTallied ((measure_flip b).trans hmeasure)] at hcharge
  rw [Cost.IsBelow, ← Bool.not_eq_true,
    ← SearchGraph.weigh_lt_iff (fits_activeCost hpenalized hb) (fits_activeCost hpenalized ha)]
  exact not_lt.mpr hcharge

/-! ### The least harmful atom -/

/-- Keeps the less harmful of two atoms, the first of which comes with its change. -/
def keepLeast (s : SearchState g) (found : Fin g.atoms × Option ℚ) (a : Fin g.atoms) :
    Fin g.atoms × Option ℚ :=
  if improves found.2 (s.delta a) then (a, some (s.delta a)) else found

theorem leastHarmful_eq (fallback : Fin g.atoms) (atoms : List (Fin g.atoms)) :
    s.leastHarmful fallback atoms = (atoms.foldl s.keepLeast (fallback, none)).1 :=
  rfl

theorem keepLeast_some (a b : Fin g.atoms) :
    ∃ c, s.keepLeast (a, some (s.delta a)) b = (c, some (s.delta c)) ∧
      s.delta c ≤ s.delta a ∧ s.delta c ≤ s.delta b := by
  unfold keepLeast improves
  simp only [decide_eq_true_eq]
  split_ifs with hlt
  · exact ⟨b, rfl, hlt.le, le_rfl⟩
  · exact ⟨a, rfl, le_rfl, not_lt.mp hlt⟩

theorem foldl_keepLeast (atoms : List (Fin g.atoms)) (a : Fin g.atoms) :
    s.delta (atoms.foldl s.keepLeast (a, some (s.delta a))).1 ≤ s.delta a ∧
      ∀ b ∈ atoms, s.delta (atoms.foldl s.keepLeast (a, some (s.delta a))).1 ≤ s.delta b := by
  induction atoms generalizing a with
  | nil => exact ⟨le_rfl, fun b hb => nomatch hb⟩
  | cons b atoms ih =>
    obtain ⟨c, hkept, hca, hcb⟩ := s.keepLeast_some a b
    obtain ⟨hleast, hrest⟩ := ih c
    rw [List.foldl_cons, hkept, List.forall_mem_cons]
    exact ⟨hleast.trans hca, hleast.trans hcb, hrest⟩

theorem delta_leastHarmful_le (fallback first : Fin g.atoms) (rest : List (Fin g.atoms)) :
    ∀ b ∈ first :: rest, s.delta (s.leastHarmful fallback (first :: rest)) ≤ s.delta b := by
  have hfirst : s.keepLeast (fallback, none) first = (first, some (s.delta first)) := by
    have hnumber : improves none (s.delta first) = true := by
      unfold improves
      simp [WeightArithmetic.infinite?]
    unfold keepLeast
    rw [if_pos hnumber]
  rw [leastHarmful_eq, List.foldl_cons, hfirst, List.forall_mem_cons]
  exact s.foldl_keepLeast rest first

/-! ### Greedy steps -/

section Steps

variable {σ : Type} [RandomSource σ]

/-- Whether a walk step takes the least harmful candidate. -/
def isGreedy (s : SearchState g) (h : 0 < s.bad.size) (greedyChance : Float) (random : σ) : Bool :=
  (RandomSource.happens greedyChance (RandomSource.below s.bad.size h random).2).1

theorem chooseAtom_of_greedy {greedyChance : Float} {random : σ}
    (hgreedy : (RandomSource.happens greedyChance random).1 = true) (first : Fin g.atoms)
    (rest : List (Fin g.atoms)) :
    (s.chooseAtom greedyChance first rest random).1 = s.leastHarmful first (first :: rest) := by
  unfold chooseAtom
  dsimp only
  rw [if_pos hgreedy]

theorem exists_leastHarmful_flip (h : 0 < s.bad.size) {greedyChance : Float} {random : σ}
    (hgreedy : s.isGreedy h greedyChance random = true)
    (hcandidates : s.candidates (s.taken h random) ≠ []) :
    ∃ a ∈ s.candidates (s.taken h random), ∃ next : σ,
      s.walkStep greedyChance random = (true, s.flip a, next) ∧
      ∀ b ∈ s.candidates (s.taken h random), s.delta a ≤ s.delta b := by
  obtain ⟨first, rest, heq⟩ := List.exists_cons_of_ne_nil hcandidates
  refine ⟨_, ?_, _, walkStep_of_candidates h greedyChance heq, ?_⟩
  · rw [heq]
    exact chooseAtom_mem greedyChance first rest _
  · rw [heq, chooseAtom_of_greedy hgreedy]
    exact s.delta_leastHarmful_le first first rest

end Steps

/-- In the graph of a network that comes from a grounding, the sum of penalties and soft weights orders
assignments as their costs do.  So a greedy walk step of a weighted search flips a candidate of the
constraint that it takes whose active cost afterwards is not worse than that of any other. -/
theorem greedy_flip_unbeaten {chunkSize : Nat} {b : Builtins} {e : Evidence}
    {clauses : List (Clause ℚ)} {query : List Signature} {n m : Network ℚ}
    (h : Network.ground chunkSize b e clauses query = .ok n) (hm : n.Reaches m) :
    let g := SearchGraph.ofNetwork m
    (∀ t u : Vector Bool g.atoms, g.hardPenalty * (g.costOf t).hard + (g.costOf t).soft <
        g.hardPenalty * (g.costOf u).hard + (g.costOf u).soft ↔
      (g.costOf t).isBetterThan (g.costOf u) = true) ∧
    ∀ {σ : Type} [RandomSource σ] (s : SearchState g), Reachable s → s.measure = .weighted →
      ∀ (hbad : 0 < s.bad.size) (greedyChance : Float) (random : σ),
        s.isGreedy hbad greedyChance random = true →
        s.candidates (s.taken hbad random) ≠ [] →
        ∃ a ∈ s.candidates (s.taken hbad random), ∃ next : σ,
          s.walkStep greedyChance random = (true, s.flip a, next) ∧
          ∀ other ∈ s.candidates (s.taken hbad random),
            (s.flip other).activeCost.isBetterThan (s.flip a).activeCost = false := by
  intro g
  have hg : g.IsIndexed := SearchGraph.isIndexed_ofNetwork m
  have hatoms : g.HasDistinctAtoms := Network.hasDistinctAtoms_of_ground h hm
  have hpenalized : g.IsPenalized := SearchGraph.isPenalized_ofNetwork m
  refine ⟨fun t u => ?_, fun s hs hmeasure hbad greedyChance random hgreedy hcandidates => ?_⟩
  · exact SearchGraph.weigh_lt_iff (hpenalized.fits_costOf t) (hpenalized.fits_costOf u)
  · obtain ⟨hconsistent, -⟩ := hs.isConsistent hg
    obtain ⟨a, ha, next, hstep, hleast⟩ := exists_leastHarmful_flip hbad hgreedy hcandidates
    refine ⟨a, ha, next, hstep, fun other hother => ?_⟩
    exact isBelow_of_delta_le hg hatoms hpenalized hconsistent hmeasure (hleast other hother)

/-- With everything active, rain on Monday and Tuesday and nothing wet. -/
def dryRain (g : SearchGraph ℚ) : SearchState g :=
  ((start g .weighted (Vector.ofFn fun a => decide (a.val < 2))).setActive
    (fun _ _ _ (u : Unit) => (true, u)) ()).1

theorem reachable_dryRain (g : SearchGraph ℚ) : Reachable (dryRain g) :=
  .setActive _ _ (.start _ _)

/-- On the small theory, the rain of Monday could end or it could be wet; being wet costs less, and
comes second. -/
theorem greedy_flip_unbeaten_weather :
    ∃ n, Network.ground 1 ⟨[], []⟩ Weather.evidence Weather.clauses [] = .ok n ∧ n.Reaches n ∧
      let g := SearchGraph.ofNetwork n
      let s := dryRain g
      (∀ t u : Vector Bool g.atoms, g.hardPenalty * (g.costOf t).hard + (g.costOf t).soft <
          g.hardPenalty * (g.costOf u).hard + (g.costOf u).soft ↔
        (g.costOf t).isBetterThan (g.costOf u) = true) ∧
      Reachable s ∧ s.measure = .weighted ∧
      ∃ hbad : 0 < s.bad.size, s.isGreedy hbad 1 First.first = true ∧
        (s.candidates (s.taken hbad First.first)).map Fin.val = [0, 2] ∧
        (s.walkStep 1 First.first).2.1.truth.toList = [true, true, true] ∧
        ∃ a ∈ s.candidates (s.taken hbad First.first), ∃ next : First,
          s.walkStep 1 First.first = (true, s.flip a, next) ∧
          ∀ other ∈ s.candidates (s.taken hbad First.first),
            (s.flip other).activeCost.isBetterThan (s.flip a).activeCost = false := by
  have hsearch : ((Network.ground 1 ⟨[], []⟩ Weather.evidence Weather.clauses []).toOption.any
      fun n =>
        let s := dryRain (SearchGraph.ofNetwork n)
        if h : 0 < s.bad.size then
          decide (s.measure = .weighted ∧ s.isGreedy h 1 First.first = true ∧
            (s.candidates (s.taken h First.first)).map Fin.val = [0, 2] ∧
            (s.walkStep 1 First.first).2.1.truth.toList = [true, true, true])
        else false) = true := by
    decide +kernel
  obtain ⟨n, hn, hsearch⟩ := Except.any_toOption_iff.mp hsearch
  dsimp only at hsearch
  split_ifs at hsearch with hbad
  obtain ⟨hmeasure, hgreedy, hcandidates, htruth⟩ := decide_eq_true_iff.mp hsearch
  obtain ⟨hfaithful, hunbeaten⟩ := greedy_flip_unbeaten hn .refl
  have hnonempty : (dryRain (SearchGraph.ofNetwork n)).candidates
      ((dryRain (SearchGraph.ofNetwork n)).taken hbad First.first) ≠ [] := by
    intro hnil
    rw [hnil] at hcandidates
    cases hcandidates
  have hreachable := reachable_dryRain (SearchGraph.ofNetwork n)
  exact ⟨n, hn, .refl, hfaithful, hreachable, hmeasure, hbad, hgreedy, hcandidates, htruth,
    hunbeaten _ hreachable hmeasure hbad 1 First.first hgreedy hnonempty⟩

end SearchState

end LogicNetwork
