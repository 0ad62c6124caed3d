import LogicNetwork.Proofs.Search.BadList
import LogicNetwork.Proofs.Search.Occurrences

/-!
# Flips

A state is consistent if its counts, its list of bad constraints and their tallies are those of its
assignment (`SearchState.IsConsistent`), and it respects its pins if every pinned atom has the value
it is pinned to (`SearchState.RespectsPins`).

A flip goes through the occurrences of its atom and touches a constraint at each.  A touch leaves
the list right for the counts as they are then (`SearchState.IsListed.touch`), and after the whole
pass the counts are those of the new assignment (`SearchState.IsListed.touchAll`), so that a flip
keeps a state consistent.  On the way no number falls below zero, because an atom is nowhere true
more often than the counts say, and no place is looked up that the list does not have: the flip in
which both are checked comes to the same end (`SearchState.IsConsistent.flip_and_flip?`).
-/

namespace LogicNetwork.SearchState

variable {α : Type} [WeightArithmetic α] {g : SearchGraph α} {s : SearchState g} {c d : Fin g.size}
  {a : Fin g.atoms}

/-! ### Checked flips -/

/-- Whether a touch takes nothing from zero and looks up no place that the list does not have.
Atoms and constraints need no check: their numbers carry the proof that they are in range. -/
def CanTouch (s : SearchState g) (c : Fin g.size) (nowTrue : Bool) : Prop :=
  (nowTrue = false → 0 < s.trueLiterals.get c) ∧
    ∀ i ∈ s.place.get c, i < s.bad.size ∧ (g.isHardAt c = true → 0 < s.badHard)

instance (s : SearchState g) (c : Fin g.size) (nowTrue : Bool) :
    Decidable (s.CanTouch c nowTrue) :=
  inferInstanceAs (Decidable (_ ∧ _))

/-- A touch that is only made where nothing goes out of range. -/
def touch? (s : SearchState g) (c : Fin g.size) (nowTrue : Bool) : Option (SearchState g) :=
  if s.CanTouch c nowTrue then some (s.touch c nowTrue) else none

/-- A flip of checked touches. -/
def flip? (s : SearchState g) (a : Fin g.atoms) : Option (SearchState g) :=
  let value := !s.truth.get a
  (g.occurrences.get a).foldlM (fun s (c, positive) => s.touch? c (positive == value))
    (s.assign a value)

/-- A pin whose flip is checked. -/
def pin? (s : SearchState g) (a : Fin g.atoms) (value : Bool) : Option (SearchState g) :=
  let s := s.note a value
  if s.truth.get a == value then some s else s.flip? a

/-! ### What taking out leaves alone -/

@[simp]
theorem truth_removeBad : (s.removeBad c).truth = s.truth := by
  unfold removeBad
  cases s.place.get c <;> rfl

@[simp]
theorem pinned_removeBad : (s.removeBad c).pinned = s.pinned := by
  unfold removeBad
  cases s.place.get c <;> rfl

@[simp]
theorem trueLiterals_removeBad : (s.removeBad c).trueLiterals = s.trueLiterals := by
  unfold removeBad
  cases s.place.get c <;> rfl

@[simp]
theorem active_removeBad : (s.removeBad c).active = s.active := by
  unfold removeBad
  cases s.place.get c <;> rfl

/-! ### Lists that fit the counts -/

/-- Whether the list is that of the active constraints that the counts say are bad. -/
structure IsListed (s : SearchState g) : Prop extends s.IsTallied where
  mem_bad_iff : ∀ c, c ∈ s.bad ↔ s.active.get c = true ∧ s.isGood c = false

theorem touch_eq (nowTrue : Bool) : s.touch c nowTrue =
    (s.recount c (if nowTrue then s.trueLiterals.get c + 1 else s.trueLiterals.get c - 1)).relist c :=
  rfl

omit [WeightArithmetic α] in
theorem trueLiterals_recount {count : Nat} :
    (s.recount c count).trueLiterals.get d = if c = d then count else s.trueLiterals.get d :=
  get_set s.trueLiterals c d count

theorem relist_leaves : (s.relist c).truth = s.truth ∧ (s.relist c).pinned = s.pinned ∧
    (s.relist c).trueLiterals = s.trueLiterals ∧ (s.relist c).active = s.active := by
  unfold relist addBad
  split_ifs <;> simp

/-- A list that is right apart from one constraint is right after that one is listed or unlisted. -/
theorem IsTallied.relist (h : s.IsTallied)
    (hothers : ∀ d, d ≠ c → (d ∈ s.bad ↔ s.active.get d = true ∧ s.isGood d = false))
    (hactive : c ∈ s.bad → s.active.get c = true) : (s.relist c).IsListed := by
  obtain ⟨-, -, hcounts, hactives⟩ := s.relist_leaves (c := c)
  have hgood : ∀ d, (s.relist c).isGood d = s.isGood d := by
    intro d
    unfold isGood
    rw [hcounts]
  have htallied : (s.relist c).IsTallied ∧
      ∀ d, d ∈ (s.relist c).bad ↔ if d = c then s.active.get c = true ∧ s.isGood c = false
        else d ∈ s.bad := by
    -- it is active and good, active and bad, or not active; and it is listed or not
    unfold SearchState.relist
    split_ifs with hon hok hplace hplace
    · rw [h.isSome_place_iff] at hplace
      refine ⟨h.removeBad hplace, fun d => ?_⟩
      rw [mem_removeBad h hplace, hok]
      split_ifs with hd <;> simp [hd]
    · rw [h.isSome_place_iff] at hplace
      refine ⟨h, fun d => ?_⟩
      split_ifs with hd
      · rw [hd, hok]
        simp [hplace]
      · rfl
    · rw [h.isSome_place_iff] at hplace
      refine ⟨h, fun d => ?_⟩
      split_ifs with hd
      · rw [hd]
        simp [hplace, hok, hon]
      · rfl
    · rw [h.isSome_place_iff] at hplace
      refine ⟨h.addBad hplace, fun d => ?_⟩
      rw [mem_addBad]
      split_ifs with hd <;> simp [hd, hok, hon]
    · refine ⟨h, fun d => ?_⟩
      split_ifs with hd
      · rw [hd]
        have hlisted : c ∉ s.bad := fun hc => hon (hactive hc)
        simp [hlisted, hon]
      · rfl
  refine ⟨htallied.1, fun d => ?_⟩
  rw [htallied.2, hgood, hactives]
  split_ifs with hd
  · rw [hd]
  · exact hothers d hd

/-! ### One touch -/

theorem trueLiterals_touch (nowTrue : Bool) : (s.touch c nowTrue).trueLiterals.get d =
    if c = d then if nowTrue then s.trueLiterals.get c + 1 else s.trueLiterals.get c - 1
    else s.trueLiterals.get d := by
  rw [touch_eq, relist_leaves.2.2.1, trueLiterals_recount]

/-- A touch moves its literal to the other side. -/
theorem trueLiterals_touch_add {positive value : Bool}
    (hpos : (positive == value) = false → 0 < s.trueLiterals.get c) :
    (s.touch c (positive == value)).trueLiterals.get d + [(c, positive)].count (d, !value) =
      s.trueLiterals.get d + [(c, positive)].count (d, value) := by
  rw [trueLiterals_touch, List.count_singleton, List.count_singleton]
  by_cases hd : c = d
  · subst hd
    cases positive <;> cases value <;> simp at hpos ⊢ <;> omega
  · simp [hd]

theorem touch_leaves (nowTrue : Bool) : (s.touch c nowTrue).truth = s.truth ∧
    (s.touch c nowTrue).pinned = s.pinned ∧ (s.touch c nowTrue).active = s.active := by
  rw [touch_eq]
  obtain ⟨htruth, hpinned, -, hactive⟩ := relist_leaves (c := c)
    (s := s.recount c (if nowTrue then s.trueLiterals.get c + 1 else s.trueLiterals.get c - 1))
  exact ⟨htruth, hpinned, hactive⟩

theorem IsListed.touch (h : s.IsListed) (c : Fin g.size) (nowTrue : Bool) :
    (s.touch c nowTrue).IsListed := by
  rw [touch_eq]
  generalize (if nowTrue then s.trueLiterals.get c + 1 else s.trueLiterals.get c - 1) = count
  have htallied : (s.recount c count).IsTallied :=
    ⟨h.place_eq_some_iff, h.badHard_eq, h.badSoft_eq⟩
  apply htallied.relist
  · -- the counts of the other constraints have not changed
    intro d hd
    have hgood : (s.recount c count).isGood d = s.isGood d := by
      rw [isGood, trueLiterals_recount, if_neg hd.symm, isGood]
    rw [hgood]
    exact h.mem_bad_iff d
  · intro hc
    exact ((h.mem_bad_iff c).mp hc).1

/-- A listed constraint is at a place of the list, and counts if it is hard. -/
theorem IsTallied.canTouch (h : s.IsTallied) {nowTrue : Bool}
    (hpos : nowTrue = false → 0 < s.trueLiterals.get c) : s.CanTouch c nowTrue := by
  refine ⟨hpos, fun i hi => ?_⟩
  have hbad := (h.place_eq_some_iff c i).mp hi
  refine ⟨lt_of_getElem?_eq_some hbad, fun hhard => ?_⟩
  rw [h.badHard_eq, List.countP_pos_iff]
  exact ⟨c, Array.mem_toList_iff.mpr (Array.mem_of_getElem? hbad), hhard⟩

/-! ### A pass over occurrences -/

/-- Touches the constraints of occurrences, for an atom that has taken a value. -/
def touchAll (s : SearchState g) (value : Bool) (occurrences : List (Fin g.size × Bool)) :
    SearchState g :=
  occurrences.foldl (fun s (c, positive) => s.touch c (positive == value)) s

theorem flip_eq : s.flip a =
    (s.assign a !s.truth.get a).touchAll (!s.truth.get a) (g.occurrences.get a) :=
  rfl

theorem touchAll_leaves {value : Bool} {occurrences : List (Fin g.size × Bool)} :
    (s.touchAll value occurrences).truth = s.truth ∧
      (s.touchAll value occurrences).pinned = s.pinned ∧
      (s.touchAll value occurrences).active = s.active := by
  induction occurrences generalizing s with
  | nil => exact ⟨rfl, rfl, rfl⟩
  | cons o occurrences ih =>
    obtain ⟨c, positive⟩ := o
    obtain ⟨htruth, hpinned, hactive⟩ := s.touch_leaves (c := c) (positive == value)
    obtain ⟨htruth', hpinned', hactive'⟩ := ih (s := s.touch c (positive == value))
    exact ⟨htruth'.trans htruth, hpinned'.trans hpinned, hactive'.trans hactive⟩

/-- If the counts are at least the literals that are still to be taken away, a pass takes them away
and adds those of the other sign, and never goes out of range. -/
theorem IsListed.touchAll (h : s.IsListed) {value : Bool}
    {occurrences : List (Fin g.size × Bool)}
    (hcounts : ∀ c, occurrences.count (c, !value) ≤ s.trueLiterals.get c) :
    (s.touchAll value occurrences).IsListed ∧
      (∀ c, (s.touchAll value occurrences).trueLiterals.get c + occurrences.count (c, !value) =
        s.trueLiterals.get c + occurrences.count (c, value)) ∧
      occurrences.foldlM (fun s (c, positive) => s.touch? c (positive == value)) s =
        some (s.touchAll value occurrences) := by
  induction occurrences generalizing s with
  | nil => exact ⟨h, fun c => rfl, rfl⟩
  | cons o occurrences ih =>
    obtain ⟨c, positive⟩ := o
    have hcons : ∀ o : Fin g.size × Bool, ((c, positive) :: occurrences).count o =
        occurrences.count o + [(c, positive)].count o := by
      intro o
      rw [List.count_cons, List.count_singleton]
    simp only [hcons] at hcounts ⊢
    -- the first occurrence is a literal that was true, and counted, or one that becomes true
    have hpos : (positive == value) = false → 0 < s.trueLiterals.get c := by
      intro hne
      have hc := hcounts c
      rw [← Bool.eq_not.mpr (beq_eq_false_iff_ne.mp hne), List.count_singleton_self] at hc
      omega
    have hone := fun d => trueLiterals_touch_add (d := d) hpos
    have hrest : ∀ d, occurrences.count (d, !value) ≤
        (s.touch c (positive == value)).trueLiterals.get d := by
      intro d
      have hd := hcounts d
      have htouched := hone d
      omega
    obtain ⟨hlisted, hcount, hchecked⟩ := ih (h.touch c (positive == value)) hrest
    refine ⟨hlisted, fun d => ?_, ?_⟩
    · have hd := hcount d
      have htouched := hone d
      show ((s.touch c (positive == value)).touchAll value occurrences).trueLiterals.get d + _ = _
      omega
    · have htouch : s.touch? c (positive == value) = some (s.touch c (positive == value)) :=
        if_pos (h.canTouch hpos)
      rw [List.foldlM_cons]
      show s.touch? c (positive == value) >>= _ = _
      rw [htouch]
      exact hchecked

/-! ### Flips -/

/-- Whether counts, list and tallies are those of the assignment. -/
structure IsConsistent (s : SearchState g) : Prop extends s.IsTallied where
  trueLiterals_eq : ∀ c, s.trueLiterals.get c = (g.constraintAt c).trueLiterals s.truth
  mem_bad_iff : ∀ c, c ∈ s.bad ↔
    s.active.get c = true ∧ (g.constraintAt c).isGoodIn s.truth = false

/-- Whether every pinned atom has the value that it is pinned to. -/
def RespectsPins (s : SearchState g) : Prop :=
  ∀ (a : Fin g.atoms) (value : Bool), s.pinned.get a = some value → s.truth.get a = value

theorem isGood_eq_isGoodIn
    (h : ∀ c, s.trueLiterals.get c = (g.constraintAt c).trueLiterals s.truth) (c : Fin g.size) :
    s.isGood c = (g.constraintAt c).isGoodIn s.truth := by
  rw [isGood, h, GraphConstraint.isGoodIn]

theorem IsListed.isConsistent (h : s.IsListed)
    (hcounts : ∀ c, s.trueLiterals.get c = (g.constraintAt c).trueLiterals s.truth) :
    s.IsConsistent := by
  refine ⟨h.toIsTallied, hcounts, fun c => ?_⟩
  rw [← isGood_eq_isGoodIn hcounts]
  exact h.mem_bad_iff c

theorem IsConsistent.isListed (h : s.IsConsistent) : s.IsListed := by
  refine ⟨h.toIsTallied, fun c => ?_⟩
  rw [isGood_eq_isGoodIn h.trueLiterals_eq]
  exact h.mem_bad_iff c

theorem flip_leaves : (s.flip a).truth = (s.assign a !s.truth.get a).truth ∧
    (s.flip a).pinned = s.pinned ∧ (s.flip a).active = s.active := by
  rw [flip_eq]
  exact touchAll_leaves

/-- The literals of an atom that flips change sides. -/
theorem trueLiterals_flip (s : SearchState g) (c : Fin g.size) (a : Fin g.atoms) :
    (g.constraintAt c).trueLiterals (s.flip a).truth +
        (g.constraintAt c).literals.count (a, s.truth.get a) =
      (g.constraintAt c).trueLiterals s.truth +
        (g.constraintAt c).literals.count (a, !s.truth.get a) := by
  rw [flip_leaves.1]
  exact (g.constraintAt c).trueLiterals_set s.truth a

/-- A flip keeps a state consistent, and never goes out of range. -/
theorem IsConsistent.flip_and_flip? (hg : g.IsIndexed) (h : s.IsConsistent) (a : Fin g.atoms) :
    (s.flip a).IsConsistent ∧ s.flip? a = some (s.flip a) := by
  have hlisted : (s.assign a !s.truth.get a).IsListed :=
    ⟨⟨h.place_eq_some_iff, h.badHard_eq, h.badSoft_eq⟩, h.isListed.mem_bad_iff⟩
  have hbefore : ∀ c, (s.assign a !s.truth.get a).trueLiterals.get c =
      (g.constraintAt c).trueLiterals s.truth := h.trueLiterals_eq
  have hcounts : ∀ c, (g.occurrences.get a).count (c, !!s.truth.get a) ≤
      (s.assign a !s.truth.get a).trueLiterals.get c := by
    intro c
    rw [Bool.not_not, hg, hbefore]
    exact (g.constraintAt c).count_le_trueLiterals s.truth a
  obtain ⟨hflipped, hcount, hchecked⟩ := hlisted.touchAll hcounts
  refine ⟨hflipped.isConsistent fun c => ?_, hchecked⟩
  -- the literals of the atom change sides in the counts as they do in the constraint
  have hsides := s.trueLiterals_flip c a
  have hc := hcount c
  rw [Bool.not_not, hg, hg, hbefore] at hc
  rw [flip_eq] at hsides
  omega

end LogicNetwork.SearchState
