import LogicNetwork.Proofs.Search.DistinctAtoms
import LogicNetwork.Proofs.Search.Propagation
import LogicNetwork.Proofs.Search.Reachable

/-!
# Candidates of a walk step

A walk step needs an atom of a bad constraint that is not pinned and whose flip helps.  There is
none if the pins leave the constraint no way out, so what a search has to keep is that they leave
one to every active constraint (`SearchState.IsMovable`).  They do if there are no pins, and they do
if the pins are forced values that leave the constraint settled
(`GraphConstraint.IsSettled.canMend`); flips of other atoms change neither.

In such a state a walk step always makes a move while a constraint is bad, and the move mends the
constraint that it takes, or brings one true literal less to it if it wants to be false
(`SearchState.IsMovable.isUnstalled`).
-/

namespace LogicNetwork

variable {α : Type} [WeightArithmetic α]

/-! ### Constraints and pins -/

namespace GraphConstraint

variable {atoms : Nat} {c : GraphConstraint α atoms} {pinned : Forced atoms}

/-- Whether pins leave a constraint a way into its preferred state: a literal that they do not make
false, if it wants to be true, and no literal that they make true otherwise. -/
structure CanMend (c : GraphConstraint α atoms) (pinned : Forced atoms) : Prop where
  exists_not_lost : c.weight.wantsTrue = true → ∃ l ∈ c.literals, ¬ IsLost pinned l
  get_ne : c.weight.wantsTrue = false → ∀ l ∈ c.literals, pinned.get l.1 ≠ some l.2

theorem canMend_of_no_pins (hsearchable : c.isSearchable = true)
    (hnone : ∀ a, pinned.get a = none) : c.CanMend pinned := by
  refine ⟨fun _ => ?_, fun _ l _ => ?_⟩
  · rw [isSearchable, Bool.and_eq_true, Bool.not_eq_true', List.isEmpty_eq_false_iff] at hsearchable
    obtain ⟨l, hl⟩ := List.exists_mem_of_ne_nil _ hsearchable.1
    refine ⟨l, hl, ?_⟩
    rw [IsLost, hnone]
    exact (Option.some_ne_none _).symm
  · rw [hnone]
    exact (Option.some_ne_none _).symm

/-- Values that leave a constraint nothing to force leave it a way out. -/
theorem IsSettled.canMend (h : c.IsSettled pinned) : c.CanMend pinned := by
  refine ⟨fun hwants => ?_, fun hwants l hl hvalue => ?_⟩
  · have hsome := h.not_lost hwants
    push Not at hsome
    exact hsome
  · have hlost := h.isLost hwants l hl
    rw [IsLost, hvalue, Option.some.injEq] at hlost
    exact Bool.not_ne_self l.2 hlost.symm

end GraphConstraint

namespace SearchState

variable {g : SearchGraph α} {s : SearchState g} {c : Fin g.size} {a : Fin g.atoms}

/-! ### The literals of a bad constraint -/

theorem mem_candidates : a ∈ s.candidates c ↔ s.pinned.get a = none ∧ ∃ positive,
    (a, positive) ∈ (g.constraintAt c).literals ∧
      ((g.constraintAt c).weight.wantsTrue = true ∨ s.truth.get a = positive) := by
  unfold candidates
  simp only [List.mem_map, List.mem_filter, Bool.and_eq_true, Bool.or_eq_true, beq_iff_eq,
    Option.isNone_iff_eq_none]
  constructor
  · rintro ⟨⟨b, positive⟩, ⟨hmem, hopen, hhelps⟩, rfl⟩
    exact ⟨hopen, positive, hmem, hhelps⟩
  · rintro ⟨hopen, positive, hmem, hhelps⟩
    exact ⟨(a, positive), ⟨hmem, hopen, hhelps⟩, rfl⟩

omit [WeightArithmetic α] in
/-- An atom is not pinned if its pin would be against its value. -/
theorem pinned_eq_none_of_ne (h : s.RespectsPins) (hne : s.pinned.get a ≠ some (s.truth.get a)) :
    s.pinned.get a = none := by
  cases hvalue : s.pinned.get a with
  | none => rfl
  | some value =>
    rw [hvalue, h a value hvalue] at hne
    exact absurd rfl hne

/-- A bad constraint that the pins leave a way out has an atom to flip. -/
theorem candidates_ne_nil_of_canMend (hpins : s.RespectsPins)
    (hmend : (g.constraintAt c).CanMend s.pinned)
    (hbad : (g.constraintAt c).isGoodIn s.truth = false) : s.candidates c ≠ [] := by
  suffices hexists : ∃ a, a ∈ s.candidates c by
    obtain ⟨a, ha⟩ := hexists
    exact List.ne_nil_of_mem ha
  cases hwants : (g.constraintAt c).weight.wantsTrue with
  | true =>
    obtain ⟨l, hl, hlost⟩ := hmend.exists_not_lost hwants
    refine ⟨l.1, mem_candidates.mpr ⟨pinned_eq_none_of_ne hpins ?_, l.2, hl, .inl hwants⟩⟩
    rw [GraphConstraint.get_eq_not_of_bad hwants hbad hl]
    exact hlost
  | false =>
    obtain ⟨l, hl, htrue⟩ := GraphConstraint.exists_get_eq_of_bad hwants hbad
    refine ⟨l.1, mem_candidates.mpr ⟨pinned_eq_none_of_ne hpins ?_, l.2, hl, .inr htrue⟩⟩
    rw [htrue]
    exact hmend.get_ne hwants l hl

/-! ### What the flip of a candidate does -/

theorem truth_flip (b : Fin g.atoms) :
    (s.flip a).truth.get b = if a = b then !s.truth.get b else s.truth.get b := by
  rw [flip_leaves.1, assign, get_set]
  split_ifs with hab
  · rw [hab]
  · rfl

/-- Whether the flip of an atom that is not pinned is the step that a constraint needs: alone it
puts a constraint that wants to be true into its preferred state, and takes one true literal from a
constraint that wants to be false. -/
structure Mends (s : SearchState g) (c : Fin g.size) (a : Fin g.atoms) : Prop where
  pinned_eq : s.pinned.get a = none
  truth_eq : ∀ b, (s.flip a).truth.get b = if a = b then !s.truth.get b else s.truth.get b
  isGoodIn : (g.constraintAt c).weight.wantsTrue = true →
    (g.constraintAt c).isGoodIn (s.flip a).truth = true
  trueLiterals_eq : (g.constraintAt c).weight.wantsTrue = false →
    (g.constraintAt c).trueLiterals (s.flip a).truth + 1 =
      (g.constraintAt c).trueLiterals s.truth

/-- A true literal is lost if its atom flips, and no other literal of the constraint changes. -/
theorem trueLiterals_flip_of_mem (hatoms : g.HasDistinctAtoms)
    (hmem : (a, s.truth.get a) ∈ (g.constraintAt c).literals) :
    (g.constraintAt c).trueLiterals (s.flip a).truth + 1 =
      (g.constraintAt c).trueLiterals s.truth := by
  have hsides := s.trueLiterals_flip c a
  have hone := hatoms.count_add_count_le c a (s.truth.get a)
  have hpos := List.count_pos_iff.mpr hmem
  omega

theorem mends_of_mem_candidates (hatoms : g.HasDistinctAtoms)
    (hbad : (g.constraintAt c).isGoodIn s.truth = false) (ha : a ∈ s.candidates c) :
    s.Mends c a := by
  obtain ⟨hopen, positive, hmem, hhelps⟩ := mem_candidates.mp ha
  refine ⟨hopen, truth_flip, fun hwants => ?_, fun hwants => ?_⟩
  · have hfalse : s.truth.get a = !positive := GraphConstraint.get_eq_not_of_bad hwants hbad hmem
    rw [GraphConstraint.isGoodIn_iff_exists hwants]
    refine ⟨(a, positive), hmem, ?_⟩
    show (s.flip a).truth.get a = positive
    rw [truth_flip, if_pos rfl, hfalse, Bool.not_not]
  · rw [hwants] at hhelps
    have htrue : s.truth.get a = positive := hhelps.resolve_left Bool.false_ne_true
    rw [← htrue] at hmem
    exact trueLiterals_flip_of_mem hatoms hmem

/-! ### Walk steps -/

section Steps

variable {σ : Type} [RandomSource σ]

/-- The bad constraint that a walk step takes. -/
def taken (s : SearchState g) (h : 0 < s.bad.size) (random : σ) : Fin g.size :=
  s.bad.toVector.get (RandomSource.below s.bad.size h random).1

omit [WeightArithmetic α] in
theorem taken_mem (h : 0 < s.bad.size) (random : σ) : s.taken h random ∈ s.bad :=
  Array.getElem_mem _

/-- A step that has candidates flips one of them. -/
theorem walkStep_of_candidates (h : 0 < s.bad.size) (greedyChance : Float) {random : σ}
    {first : Fin g.atoms} {rest : List (Fin g.atoms)}
    (hcandidates : s.candidates (s.taken h random) = first :: rest) :
    let next := s.chooseAtom greedyChance first rest (RandomSource.below s.bad.size h random).2
    s.walkStep greedyChance random = (true, s.flip next.1, next.2) := by
  have htaken : s.candidates (s.bad[(RandomSource.below s.bad.size h random).1]) =
      first :: rest := hcandidates
  unfold walkStep
  rw [dif_pos h]
  dsimp only
  rw [htaken]

/-- A step that flips nothing leaves the state as it is. -/
theorem state_of_not_walkStep {greedyChance : Float} {random : σ}
    (hstays : (s.walkStep greedyChance random).1 = false) :
    (s.walkStep greedyChance random).2.1 = s := by
  unfold walkStep at hstays ⊢
  split_ifs at hstays ⊢
  · dsimp only at hstays ⊢
    split at hstays
    · rfl
    · cases hstays
  · rfl

end Steps

/-! ### States in which there is a move -/

/-- Whether a state is consistent and its pins leave every active constraint a way out. -/
structure IsMovable (s : SearchState g) : Prop where
  isConsistent : s.IsConsistent
  respectsPins : s.RespectsPins
  canMend : ∀ c, s.active.get c = true → (g.constraintAt c).CanMend s.pinned

theorem IsMovable.step (hg : g.IsIndexed) (h : s.IsMovable) {next : SearchState g}
    (hstep : s.IsStep next) : next.IsMovable := by
  refine ⟨h.isConsistent.step hg hstep, h.respectsPins.step hstep, ?_⟩
  have hpinned : next.pinned = s.pinned := by
    rcases hstep with rfl | ⟨a, -, rfl⟩
    · rfl
    · exact flip_leaves.2.1
  rw [hstep.active_eq, hpinned]
  exact h.canMend

/-- Whether a walk step makes a move while an active constraint is bad, whatever decides it: the one
that it takes has candidates, and flipping a candidate is the step that it needs. -/
structure IsUnstalled (s : SearchState g) : Prop where
  mem_bad_iff : ∀ c, c ∈ s.bad ↔
    s.active.get c = true ∧ (g.constraintAt c).isGoodIn s.truth = false
  candidates_ne_nil : ∀ c ∈ s.bad, s.candidates c ≠ []
  mends : ∀ c ∈ s.bad, ∀ a ∈ s.candidates c, s.Mends c a
  exists_flip : ∀ {σ : Type} [RandomSource σ] (greedyChance : Float) (random : σ)
    (h : 0 < s.bad.size), ∃ a ∈ s.candidates (s.taken h random), ∃ next : σ,
      s.walkStep greedyChance random = (true, s.flip a, next)

theorem isMovable_of_no_pins (h : s.IsConsistent) (hnone : ∀ a, s.pinned.get a = none)
    (hactive : ∀ c, s.active.get c = true → (g.constraintAt c).isSearchable = true) :
    s.IsMovable := by
  refine ⟨h, fun a value hvalue => ?_, fun c hc => ?_⟩
  · rw [hnone] at hvalue
    cases hvalue
  · exact GraphConstraint.canMend_of_no_pins (hactive c hc) hnone

theorem IsMovable.candidates_ne_nil (h : s.IsMovable) (hc : c ∈ s.bad) : s.candidates c ≠ [] := by
  obtain ⟨hactive, hbad⟩ := (h.isConsistent.mem_bad_iff c).mp hc
  exact candidates_ne_nil_of_canMend h.respectsPins (h.canMend c hactive) hbad

theorem IsMovable.exists_flip {σ : Type} [RandomSource σ] (h : s.IsMovable) (greedyChance : Float)
    (random : σ) (hsize : 0 < s.bad.size) : ∃ a ∈ s.candidates (s.taken hsize random),
      ∃ next : σ, s.walkStep greedyChance random = (true, s.flip a, next) := by
  obtain ⟨first, rest, heq⟩ :=
    List.exists_cons_of_ne_nil (h.candidates_ne_nil (taken_mem hsize random))
  refine ⟨_, ?_, _, walkStep_of_candidates hsize greedyChance heq⟩
  rw [heq]
  exact chooseAtom_mem greedyChance first rest _

theorem IsMovable.isUnstalled (hatoms : g.HasDistinctAtoms) (h : s.IsMovable) : s.IsUnstalled :=
  ⟨h.isConsistent.mem_bad_iff, fun _ => h.candidates_ne_nil,
    fun c hc _ ha => mends_of_mem_candidates hatoms ((h.isConsistent.mem_bad_iff c).mp hc).2 ha,
    h.exists_flip⟩

end SearchState

end LogicNetwork
