import LogicNetwork.Inference.Sampler
import LogicNetwork.Proofs.Search.Pins

/-!
# Walks

Whatever outlives a single step of a search outlives the loops of a walk: the repair, the search for
a state and the annealing after it (`Walk.drawSample_keeps`).  What is used of this is that a walk
stays consistent and does not change which constraints are active (`Walk.isKept_isSound`), and that
the draw of a sample says that it succeeded exactly if no active constraint is bad in the end
(`Walk.drawSample_fst`).
-/

namespace LogicNetwork

variable {α : Type} [WeightArithmetic α] {g : SearchGraph α} {σ : Type} [RandomSource σ]

namespace SearchState

/-- Whether a state is consistent and has the given active constraints. -/
def IsSound (active : Vector Bool g.size) (s : SearchState g) : Prop :=
  s.IsConsistent ∧ s.active = active

/-- With an empty list of bad constraints, every active constraint is in its preferred state. -/
theorem IsSound.isGoodIn {active : Vector Bool g.size} {s : SearchState g} (h : s.IsSound active)
    (hempty : s.bad.isEmpty = true) {c : Fin g.size} (hc : active.get c = true) :
    (g.constraintAt c).isGoodIn s.truth = true := by
  obtain ⟨hconsistent, rfl⟩ := h
  rw [Array.isEmpty_iff] at hempty
  by_contra hbad
  rw [Bool.not_eq_true] at hbad
  have hmem := (hconsistent.mem_bad_iff c).mpr ⟨hc, hbad⟩
  rw [hempty] at hmem
  exact Array.not_mem_empty c hmem

theorem IsSound.pin (hg : g.IsIndexed) {active : Vector Bool g.size} {s : SearchState g}
    (h : s.IsSound active) (a : Fin g.atoms) (value : Bool) : (s.pin a value).IsSound active :=
  ⟨(h.1.pin_and_pin? hg a value).1, (s.pin_leaves a value).2.2.trans h.2⟩

theorem IsSound.pinForced (hg : g.IsIndexed) {active : Vector Bool g.size} {s : SearchState g}
    (h : s.IsSound active) (forced : Forced g.atoms) : (s.pinForced forced).IsSound active :=
  pinForced_induction (fun _ a value _ ht => ht.pin hg a value) h

end SearchState

namespace Walk

variable {P : SearchState g → Prop} {w : Walk g σ}

/-! ### Properties that steps keep -/

/-- Whether every step keeps a property of states. -/
def IsKept (P : SearchState g → Prop) : Prop :=
  ∀ s next : SearchState g, P s → s.IsStep next → P next

theorem isKept_isSound (hg : g.IsIndexed) (active : Vector Bool g.size) :
    IsKept (SearchState.IsSound active) := by
  rintro s next ⟨hconsistent, hactive⟩ hstep
  exact ⟨hconsistent.step hg hstep, hstep.active_eq.trans hactive⟩

theorem walk_keeps (hP : IsKept P) (greedyChance : Float) (h : P w.state) :
    P (w.walk greedyChance).state :=
  hP _ _ h (SearchState.isStep_walkStep greedyChance w.random)

theorem anneal_keeps (hP : IsKept P) (temperature : Float) (h : P w.state) :
    P (w.anneal temperature).state :=
  hP _ _ h (SearchState.isStep_annealStep temperature w.random)

/-! ### Loops -/

theorem repair_keeps (hP : IsKept P) (greedyChance : Float) (budget : Nat) (h : P w.state) :
    P (w.repair greedyChance budget).2.state := by
  induction budget generalizing w with
  | zero => exact h
  | succ budget ih =>
    rw [repair]
    split_ifs
    · exact h
    · exact ih (walk_keeps hP greedyChance h)

theorem search_keeps (hP : IsKept P) (settings : SamplerSettings) (budget : Nat)
    (h : P w.state) : P (w.search settings budget).2.state := by
  induction budget generalizing w with
  | zero => exact h
  | succ budget ih =>
    rw [search]
    split_ifs
    · exact h
    · dsimp only
      apply ih
      split_ifs
      · exact anneal_keeps hP settings.temperature h
      · exact walk_keeps hP settings.greedyChance h

theorem annealFor_keeps (hP : IsKept P) (settings : SamplerSettings) (steps : Nat)
    (temperature : Float) (h : P w.state) :
    P (annealFor settings steps temperature w).state := by
  induction steps generalizing w temperature with
  | zero => exact h
  | succ steps ih =>
    rw [annealFor]
    exact ih _ (anneal_keeps hP temperature h)

/-! ### Samples -/

theorem drawSample_keeps (hP : IsKept P) (settings : SamplerSettings) (h : P w.state) :
    P (w.drawSample settings).2.state := by
  have hsearch := search_keeps hP settings settings.maxFlips h
  unfold drawSample
  dsimp only
  split_ifs
  · exact hsearch
  · apply repair_keeps hP
    exact annealFor_keeps hP settings _ _ hsearch

/-- A draw succeeds exactly if no active constraint is bad in the end. -/
theorem drawSample_fst (settings : SamplerSettings) :
    (w.drawSample settings).1 = (w.drawSample settings).2.isGood := by
  unfold drawSample
  dsimp only
  split_ifs with hbad
  · rw [Bool.not_eq_true'] at hbad
    exact hbad.symm
  · rfl

end Walk

end LogicNetwork
