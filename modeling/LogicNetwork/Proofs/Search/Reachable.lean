import LogicNetwork.Proofs.Network.TrueCount
import LogicNetwork.Proofs.Search.Activation
import LogicNetwork.Search.Moves

/-!
# Reachable states of a search

A search begins with an assignment and goes on by choosing the active constraints, releasing and
pinning atoms, walking and annealing, in any order and with any random decisions
(`SearchState.Reachable`).  Every such operation keeps a state consistent and respects the pins:
a pin flips at most the atom that it pins (`SearchState.IsConsistent.pin_and_pin?`), and a step flips
at most one atom, which is not pinned (`SearchState.IsStep`).

So in every reachable state of the graph of a network the bookkeeping is exact, and nothing that a
search does next goes out of range (`SearchState.isConsistent_of_reachable`).
-/

namespace LogicNetwork.SearchState

variable {α : Type} [WeightArithmetic α] {g : SearchGraph α} {s : SearchState g} {σ : Type}

/-! ### The start -/

theorem isConsistent_start (measure : Measure) (truth : Vector Bool g.atoms) :
    (start g measure truth).IsConsistent := by
  refine ⟨⟨fun c i => ?_, rfl, fun _ => rfl⟩, fun c => ?_, fun c => ?_⟩
  · have hnone : (start g measure truth).place.get c = none := Vector.getElem_replicate c.isLt
    rw [hnone]
    exact iff_of_false nofun nofun
  · exact Vector.getElem_ofFn c.isLt
  · apply iff_of_false (Array.not_mem_empty c)
    rintro ⟨hactive, -⟩
    have hnone : (start g measure truth).active.get c = false := Vector.getElem_replicate c.isLt
    rw [hnone] at hactive
    cases hactive

theorem respectsPins_start (measure : Measure) (truth : Vector Bool g.atoms) :
    (start g measure truth).RespectsPins := by
  intro a value hpinned
  have hnone : (start g measure truth).pinned.get a = none := Vector.getElem_replicate a.isLt
  rw [hnone] at hpinned
  cases hpinned

/-! ### Pins -/

theorem IsConsistent.unpin (h : s.IsConsistent) : s.unpin.IsConsistent :=
  ⟨⟨h.place_eq_some_iff, h.badHard_eq, h.badSoft_eq⟩, h.trueLiterals_eq, h.mem_bad_iff⟩

omit [WeightArithmetic α] in
theorem respectsPins_unpin : s.unpin.RespectsPins := by
  intro a value hpinned
  have hnone : s.unpin.pinned.get a = none := Vector.getElem_replicate a.isLt
  rw [hnone] at hpinned
  cases hpinned

theorem pin_eq (a : Fin g.atoms) (value : Bool) : s.pin a value =
    if s.truth.get a == value then s.note a value else (s.note a value).flip a :=
  rfl

theorem IsConsistent.pin_and_pin? (hg : g.IsIndexed) (h : s.IsConsistent) (a : Fin g.atoms)
    (value : Bool) : (s.pin a value).IsConsistent ∧ s.pin? a value = some (s.pin a value) := by
  have hnote : (s.note a value).IsConsistent :=
    ⟨⟨h.place_eq_some_iff, h.badHard_eq, h.badSoft_eq⟩, h.trueLiterals_eq, h.mem_bad_iff⟩
  obtain ⟨hflip, hchecked⟩ := hnote.flip_and_flip? hg a
  have hpin? : s.pin? a value =
      if s.truth.get a == value then some (s.note a value) else (s.note a value).flip? a := rfl
  rw [hpin?, pin_eq]
  split_ifs
  · exact ⟨hnote, rfl⟩
  · exact ⟨hflip, hchecked⟩

/-- Whether it flips or not, a pinned atom ends with the value that it is pinned to. -/
theorem pin_leaves (a : Fin g.atoms) (value : Bool) :
    (s.pin a value).truth = (s.assign a value).truth ∧
      (s.pin a value).pinned = (s.note a value).pinned ∧ (s.pin a value).active = s.active := by
  rw [pin_eq]
  split_ifs with hvalue
  · rw [beq_iff_eq] at hvalue
    refine ⟨?_, rfl, rfl⟩
    rw [← hvalue]
    exact (Vector.set_getElem_self a.isLt).symm
  · obtain ⟨htruth, hpinned, hactive⟩ := (s.note a value).flip_leaves (a := a)
    refine ⟨?_, hpinned, hactive⟩
    rw [htruth]
    show (s.assign a !s.truth.get a).truth = (s.assign a value).truth
    rw [beq_iff_eq] at hvalue
    rw [← Bool.eq_not.mpr (Ne.symm hvalue)]

theorem RespectsPins.pin (h : s.RespectsPins) (a : Fin g.atoms) (value : Bool) :
    (s.pin a value).RespectsPins := by
  obtain ⟨htruth, hpinned, -⟩ := s.pin_leaves a value
  intro b other hother
  rw [htruth, assign, get_set]
  rw [hpinned, note, get_set] at hother
  split_ifs at hother ⊢ with hb
  · exact Option.some.inj hother
  · exact h b other hother

/-! ### Steps -/

/-- Whether a state is that of a search after a step: the same one, or the one in which an atom
that was not pinned has flipped. -/
def IsStep (s next : SearchState g) : Prop :=
  next = s ∨ ∃ a : Fin g.atoms, s.pinned.get a = none ∧ next = s.flip a

theorem IsConsistent.step (hg : g.IsIndexed) (h : s.IsConsistent) {next : SearchState g}
    (hstep : s.IsStep next) : next.IsConsistent := by
  rcases hstep with rfl | ⟨a, -, rfl⟩
  · exact h
  · exact (h.flip_and_flip? hg a).1

theorem RespectsPins.step (h : s.RespectsPins) {next : SearchState g} (hstep : s.IsStep next) :
    next.RespectsPins := by
  rcases hstep with rfl | ⟨a, hnone, rfl⟩
  · exact h
  · obtain ⟨htruth, hpinned, -⟩ := s.flip_leaves (a := a)
    intro b value hb
    rw [hpinned] at hb
    -- the atom that flips is another one
    have hne : a ≠ b := by
      rintro rfl
      rw [hnone] at hb
      cases hb
    rw [htruth, assign, get_set, if_neg hne]
    exact h b value hb

theorem IsStep.active_eq {next : SearchState g} (hstep : s.IsStep next) :
    next.active = s.active := by
  rcases hstep with rfl | ⟨a, -, rfl⟩
  · rfl
  · exact flip_leaves.2.2

/-- The least harmful of some atoms is one of them, or the one to fall back on. -/
theorem leastHarmful_mem (fallback : Fin g.atoms) (atoms : List (Fin g.atoms)) :
    s.leastHarmful fallback atoms = fallback ∨ s.leastHarmful fallback atoms ∈ atoms := by
  unfold leastHarmful
  refine foldl_fst_mem ?_ atoms (fallback, none)
  rintro ⟨best, least⟩ a
  dsimp only
  split_ifs
  · exact .inr rfl
  · exact .inl rfl

variable [RandomSource σ]

theorem chooseAtom_mem (greedyChance : Float) (first : Fin g.atoms) (rest : List (Fin g.atoms))
    (random : σ) : (s.chooseAtom greedyChance first rest random).1 ∈ first :: rest := by
  unfold chooseAtom
  dsimp only
  split_ifs
  · rcases s.leastHarmful_mem first (first :: rest) with heq | hmem
    · rw [heq]
      exact List.mem_cons_self
    · exact hmem
  · exact List.getElem_mem _

theorem pinned_eq_none_of_mem_candidates {c : Fin g.size} {a : Fin g.atoms}
    (ha : a ∈ s.candidates c) : s.pinned.get a = none := by
  obtain ⟨⟨b, positive⟩, hb, rfl⟩ := List.mem_map.mp ha
  rw [List.mem_filter, Bool.and_eq_true] at hb
  exact Option.isNone_iff_eq_none.mp hb.2.1

theorem isStep_walkStep (greedyChance : Float) (random : σ) :
    s.IsStep (s.walkStep greedyChance random).2.1 := by
  unfold walkStep
  split_ifs with hbad
  · dsimp only
    split
    · exact .inl rfl
    · rename_i first rest hcandidates
      have hmem := s.chooseAtom_mem greedyChance first rest
        (RandomSource.below s.bad.size hbad random).2
      rw [← hcandidates] at hmem
      exact .inr ⟨_, pinned_eq_none_of_mem_candidates hmem, rfl⟩
  · exact .inl rfl

theorem isStep_annealStep (temperature : Float) (random : σ) :
    s.IsStep (s.annealStep temperature random).2.1 := by
  unfold annealStep
  split_ifs with hatoms
  · dsimp only
    split_ifs with hpinned haccepted
    · exact .inl rfl
    · rw [Bool.not_eq_true, Option.isSome_eq_false_iff, Option.isNone_iff_eq_none] at hpinned
      exact .inr ⟨_, hpinned, rfl⟩
    · exact .inl rfl
  · exact .inl rfl

/-! ### Reachable states -/

/-- The states that a search reaches: it begins with any assignment, and makes its operations in any
order, with any choice of active constraints and any random decisions in each of them. -/
inductive Reachable : SearchState g → Prop
  | start (measure : Measure) (truth : Vector Bool g.atoms) : Reachable (start g measure truth)
  | setActive {σ : Type} {s : SearchState g}
      (choose : Fin g.size → GraphConstraint α g.atoms → Bool → σ → Bool × σ) (random : σ) :
      Reachable s → Reachable (s.setActive choose random).1
  | unpin {s : SearchState g} : Reachable s → Reachable s.unpin
  | pin {s : SearchState g} (a : Fin g.atoms) (value : Bool) :
      Reachable s → Reachable (s.pin a value)
  | walkStep {σ : Type} [RandomSource σ] {s : SearchState g} (greedyChance : Float) (random : σ) :
      Reachable s → Reachable (s.walkStep greedyChance random).2.1
  | annealStep {σ : Type} [RandomSource σ] {s : SearchState g} (temperature : Float) (random : σ) :
      Reachable s → Reachable (s.annealStep temperature random).2.1

theorem Reachable.isConsistent (hg : g.IsIndexed) (h : Reachable s) :
    s.IsConsistent ∧ s.RespectsPins := by
  induction h with
  | start measure truth => exact ⟨isConsistent_start measure truth, respectsPins_start measure truth⟩
  | setActive choose random _ ih =>
    refine ⟨ih.1.setActive choose random, ?_⟩
    obtain ⟨htruth, hpinned, -⟩ := setActive_leaves choose random
    unfold RespectsPins
    rw [htruth, hpinned]
    exact ih.2
  | unpin _ ih => exact ⟨ih.1.unpin, respectsPins_unpin⟩
  | pin a value _ ih => exact ⟨(ih.1.pin_and_pin? hg a value).1, ih.2.pin a value⟩
  | walkStep greedyChance random _ ih =>
    exact ⟨ih.1.step hg (isStep_walkStep greedyChance random),
      ih.2.step (isStep_walkStep greedyChance random)⟩
  | annealStep temperature random _ ih =>
    exact ⟨ih.1.step hg (isStep_annealStep temperature random),
      ih.2.step (isStep_annealStep temperature random)⟩

/-- Whether nothing that a search can do next goes out of range: a flip or a pin is the checked one,
and where the measure of a flip counts one true literal less, there is one. -/
structure IsSafe (s : SearchState g) : Prop where
  flip?_eq : ∀ a, s.flip? a = some (s.flip a)
  pin?_eq : ∀ a value, s.pin? a value = some (s.pin a value)
  pos_of_delta : ∀ (a : Fin g.atoms), ∀ l ∈ g.occurrences.get a, s.active.get l.1 = true →
    l.2 = s.truth.get a → 0 < s.trueLiterals.get l.1

theorem IsConsistent.isSafe (hg : g.IsIndexed) (h : s.IsConsistent) : s.IsSafe := by
  refine ⟨fun a => (h.flip_and_flip? hg a).2, fun a value => (h.pin_and_pin? hg a value).2, ?_⟩
  -- an occurrence of an atom with its value is a true literal of its constraint
  rintro a ⟨c, positive⟩ hl - rfl
  have hle := (g.constraintAt c).count_le_trueLiterals s.truth a
  have hpos := List.count_pos_iff.mpr hl
  rw [hg] at hpos
  show 0 < s.trueLiterals.get c
  rw [h.trueLiterals_eq]
  omega

/-- In the graph of a network, the bookkeeping of every reachable state is that of its assignment,
each bad constraint is listed once, pinned atoms have their values, and nothing goes out of
range. -/
theorem isConsistent_of_reachable (n : Network α) {s : SearchState (SearchGraph.ofNetwork n)}
    (h : Reachable s) : s.IsConsistent ∧ s.bad.toList.Nodup ∧ s.RespectsPins ∧ s.IsSafe := by
  have hg := SearchGraph.isIndexed_ofNetwork n
  obtain ⟨hconsistent, hpins⟩ := h.isConsistent hg
  exact ⟨hconsistent, hconsistent.nodup_bad, hpins, hconsistent.isSafe hg⟩

/-! #### A short search -/

/-- A source of decisions that lets every event happen and takes the first of everything. -/
inductive First
  | first

instance : RandomSource First where
  happens _ r := (true, r)
  below _ h r := (⟨0, h⟩, r)

/-- With everything active and all atoms false, a walk step, a pin that takes it back, and an
annealing step. -/
def shortSearch (g : SearchGraph α) (a : Fin g.atoms) : SearchState g :=
  let s := ((start g .weighted (Vector.replicate g.atoms false)).setActive
    (fun _ _ _ (u : Unit) => (true, u)) ()).1
  (((s.walkStep 1 First.first).2.1.pin a false).annealStep 1 First.first).2.1

theorem reachable_shortSearch (g : SearchGraph α) (a : Fin g.atoms) :
    Reachable (shortSearch g a) :=
  .annealStep _ _ (.pin _ _ (.walkStep _ _ (.setActive _ _ (.start _ _))))

theorem isConsistent_of_reachable_weather :
    ∃ n, Network.ground 1 ⟨[], []⟩ Weather.evidence Weather.clauses [] = .ok n ∧
      ∃ s : SearchState (SearchGraph.ofNetwork n), Reachable s ∧
        s.bad.toList.map Fin.val = [2, 1] ∧ s.badHard = 1 ∧
        (SearchGraph.ofNetwork n).softSizes s.bad.toList = 3 ∧
        s.IsConsistent ∧ s.bad.toList.Nodup ∧ s.RespectsPins ∧ s.IsSafe := by
  have hsearch : ((Network.ground 1 ⟨[], []⟩ Weather.evidence Weather.clauses []).toOption.any
      fun n =>
        let g := SearchGraph.ofNetwork n
        if h : 0 < g.atoms then
          let s := shortSearch g ⟨0, h⟩
          decide (s.bad.toList.map Fin.val = [2, 1] ∧ s.badHard = 1 ∧ s.badSoft = 3)
        else false) = true := by
    decide +kernel
  obtain ⟨n, hn, hsearch⟩ := Except.any_toOption_iff.mp hsearch
  dsimp only at hsearch
  split_ifs at hsearch with hatoms
  obtain ⟨hbad, hhard, hsoft⟩ := decide_eq_true_iff.mp hsearch
  have hreachable := reachable_shortSearch (SearchGraph.ofNetwork n) ⟨0, hatoms⟩
  have hspec := isConsistent_of_reachable n hreachable
  refine ⟨n, hn, _, hreachable, hbad, hhard, ?_, hspec⟩
  rw [← hspec.1.badSoft_eq isExact_rat, hsoft]

end LogicNetwork.SearchState
