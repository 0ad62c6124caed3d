import LogicNetwork.Proofs.Search.Candidates

/-!
# Pinning forced values

Forced values are pinned atom by atom, so what a pin keeps outlives all of them
(`SearchState.pinForced_induction`).  Afterwards the pins are the forced values
(`SearchState.pinned_pinForced`).  Where the assignment has these values already, no atom flips
(`SearchState.pinForced_of_agreesWith`).  Where they are what propagation gives, every active
constraint is left a way into its preferred state (`SearchState.isMovable_pinForced`).
-/

namespace LogicNetwork.SearchState

variable {α : Type} [WeightArithmetic α] {g : SearchGraph α} {s : SearchState g}
  {forced : Forced g.atoms}

/-- Pins an atom to its forced value, if it has one. -/
def pinAt (forced : Forced g.atoms) (s : SearchState g) (a : Fin g.atoms) : SearchState g :=
  match forced.get a with
  | some value => s.pin a value
  | none => s

theorem pinForced_eq :
    s.pinForced forced = (List.finRange g.atoms).foldl (pinAt forced) s := by
  unfold pinForced
  exact Fin.foldl_eq_finRange_foldl _ _

theorem pinForced_induction {P : SearchState g → Prop}
    (hpin : ∀ (t : SearchState g) (a : Fin g.atoms) (value : Bool), forced.get a = some value →
      P t → P (t.pin a value)) (h : P s) : P (s.pinForced forced) := by
  rw [pinForced_eq]
  induction List.finRange g.atoms generalizing s with
  | nil => exact h
  | cons a as ih =>
    rw [List.foldl_cons]
    apply ih
    unfold pinAt
    split
    · exact hpin s a _ ‹_› h
    · exact h

theorem pinned_pinAt (a b : Fin g.atoms) : (pinAt forced s a).pinned.get b =
    if a = b then (forced.get b).or (s.pinned.get b) else s.pinned.get b := by
  unfold pinAt
  split
  · rename_i value hvalue
    rw [(s.pin_leaves a value).2.1, note, get_set]
    split_ifs with hab
    · rw [← hab, hvalue]
      rfl
    · rfl
  · rename_i hnone
    split_ifs with hab
    · rw [← hab, hnone]
      rfl
    · rfl

/-- The forced values come before the pins that there were. -/
theorem pinned_pinForced (forced : Forced g.atoms) (b : Fin g.atoms) :
    (s.pinForced forced).pinned.get b = (forced.get b).or (s.pinned.get b) := by
  have hfold : ∀ (as : List (Fin g.atoms)) (t : SearchState g),
      (as.foldl (pinAt forced) t).pinned.get b =
        if b ∈ as then (forced.get b).or (t.pinned.get b) else t.pinned.get b := by
    intro as
    induction as with
    | nil => exact fun t => rfl
    | cons a as ih =>
      intro t
      rw [List.foldl_cons, ih, pinned_pinAt]
      by_cases hab : a = b
      · subst hab
        cases forced.get a <;> simp
      · simp [hab, Ne.symm hab]
  rw [pinForced_eq, hfold, if_pos (List.mem_finRange b)]

/-- Without other pins, the pins are the forced values. -/
theorem pinned_pinForced_of_no_pins (forced : Forced g.atoms)
    (hnone : ∀ a, s.pinned.get a = none) :
    (s.pinForced forced).pinned = forced := by
  apply Vector.ext
  intro b hb
  have hpinned := s.pinned_pinForced forced ⟨b, hb⟩
  rw [hnone, Option.or_none] at hpinned
  exact hpinned

/-- Values that the assignment has already are noted, and nothing else changes. -/
theorem pinForced_of_agreesWith (h : forced.AgreesWith s.truth)
    (hnone : ∀ a, s.pinned.get a = none) :
    s.pinForced forced = { s with pinned := forced } := by
  have hnoted : ∃ pins, s.pinForced forced = { s with pinned := pins } := by
    apply pinForced_induction (P := fun t => ∃ pins, t = { s with pinned := pins })
    · rintro t a value hvalue ⟨pins, rfl⟩
      have hsame : (s.truth.get a == value) = true := beq_iff_eq.mpr (h a value hvalue)
      exact ⟨_, if_pos hsame⟩
    · exact ⟨s.pinned, rfl⟩
  obtain ⟨pins, heq⟩ := hnoted
  have hpins := s.pinned_pinForced_of_no_pins forced hnone
  rw [heq] at hpins ⊢
  rw [← hpins]

/-- After the values are pinned that the active constraints force, a search can move. -/
theorem isMovable_pinForced (hg : g.IsIndexed) (h : s.IsConsistent)
    (hnone : ∀ a, s.pinned.get a = none) (hforced : s.propagate = some forced) :
    (s.pinForced forced).IsMovable := by
  obtain ⟨-, hsettled, -⟩ := s.propagate_spec
  have hactive : (s.pinForced forced).active = s.active :=
    pinForced_induction (P := fun t => t.active = s.active)
      (fun t a value _ ht => (t.pin_leaves a value).2.2.trans ht) rfl
  refine ⟨?_, ?_, fun c hc => ?_⟩
  · exact pinForced_induction (fun t a value _ ht => (ht.pin_and_pin? hg a value).1) h
  · apply pinForced_induction (fun t a value _ ht => ht.pin a value)
    intro a value hvalue
    rw [hnone] at hvalue
    cases hvalue
  · rw [hactive] at hc
    rw [pinned_pinForced_of_no_pins forced hnone]
    exact ((hsettled forced hforced).2 c hc).canMend

end LogicNetwork.SearchState
