import LogicNetwork.Proofs.Sampling.Conflicts
import LogicNetwork.Proofs.Search.Endings

/-!
# Searches that never stall

The walks that a chain comes through are written down next to its loops: those of the search for
good hard constraints that it begins with, and for each round those of the draw, with its search,
its annealing and its repair (`Chain.course`).  The last of them is the walk that the chain ends
with (`Chain.getLast?_course`).  In the same way there are the states of a try (`Try.course`).

In all of them a search can move (`SearchState.IsMovable`).  A chain begins without pins, a round
pins what its constraints force or nothing, and the steps in between keep what they find.  So while
an active constraint is bad, a walk step flips an atom that is not pinned, to the good of the
constraint that it takes (`Network.never_stalls`).
-/

namespace LogicNetwork

variable {α : Type} [WeightArithmetic α] {g : SearchGraph α} {σ : Type} [RandomSource σ]

/-! ### The walks of a draw -/

namespace Walk

variable {P : SearchState g → Prop} {w : Walk g σ} {step : Walk g σ → Walk g σ}

/-- The walks that steps come through while a constraint is bad and the budget lasts. -/
def course (step : Walk g σ → Walk g σ) : Nat → Walk g σ → List (Walk g σ)
  | 0, w => [w]
  | budget + 1, w => if w.isGood then [w] else w :: course step budget (step w)

/-- A step of the search for a state. -/
def searchStep (settings : SamplerSettings) (w : Walk g σ) : Walk g σ :=
  let (annealNow, random) :=
    RandomSource.both (!settings.lateAnnealing) settings.annealChance w.random
  let w := { w with random }
  if annealNow then w.anneal settings.temperature else w.walk settings.greedyChance

/-- The walks that annealing comes through. -/
def annealCourse (settings : SamplerSettings) : Nat → Float → Walk g σ → List (Walk g σ)
  | 0, _, w => [w]
  | steps + 1, temperature, w =>
    w :: annealCourse settings steps (cool settings temperature) (w.anneal temperature)

/-- The walks that the draw of a sample comes through. -/
def drawCourse (settings : SamplerSettings) (w : Walk g σ) : List (Walk g σ) :=
  let (budget, found) := w.search settings settings.maxFlips
  let steps := settings.lateSteps.getD g.atoms
  w.course (searchStep settings) settings.maxFlips ++
    if !found.isGood then []
    else
      found.annealCourse settings steps settings.temperature ++
        (found.annealFor settings steps settings.temperature).course
          (fun v => v.walk settings.greedyChance) budget

/-! #### Where they end -/

omit [WeightArithmetic α] [RandomSource σ] in
/-- A loop that takes steps while a constraint is bad ends where its course does. -/
theorem getLast?_course (loop : Nat → Walk g σ → Nat × Walk g σ)
    (hzero : ∀ w, loop 0 w = (0, w)) (hsucc : ∀ budget w, loop (budget + 1) w =
      if w.isGood then (budget + 1, w) else loop budget (step w)) (budget : Nat) (w : Walk g σ) :
    (w.course step budget).getLast? = some (loop budget w).2 := by
  induction budget generalizing w with
  | zero =>
    rw [hzero]
    rfl
  | succ budget ih =>
    rw [course, hsucc]
    split_ifs
    · rfl
    · rw [List.getLast?_cons, ih]
      rfl

theorem getLast?_annealCourse (settings : SamplerSettings) (steps : Nat) (temperature : Float)
    (w : Walk g σ) : (w.annealCourse settings steps temperature).getLast? =
      some (w.annealFor settings steps temperature) := by
  induction steps generalizing temperature w with
  | zero => rfl
  | succ steps ih =>
    rw [annealCourse, annealFor, List.getLast?_cons, ih]
    rfl

theorem getLast?_drawCourse (settings : SamplerSettings) (w : Walk g σ) :
    (w.drawCourse settings).getLast? = some (w.drawSample settings).2 := by
  have hsearch := getLast?_course (search settings) (fun _ => rfl) (fun _ _ => rfl)
    settings.maxFlips w
  have hrepair := getLast?_course (repair (g := g) (σ := σ) settings.greedyChance)
    (fun _ => rfl) (fun _ _ => rfl)
  unfold drawCourse drawSample
  dsimp only
  split_ifs
  · rw [List.append_nil]
    exact hsearch
  · rw [List.getLast?_append, List.getLast?_append, hrepair]
    rfl

/-! #### What they keep -/

theorem searchStep_keeps (hP : IsKept P) (settings : SamplerSettings) (h : P w.state) :
    P (w.searchStep settings).state := by
  unfold searchStep
  dsimp only
  split_ifs
  · exact anneal_keeps hP settings.temperature h
  · exact walk_keeps hP settings.greedyChance h

omit [WeightArithmetic α] [RandomSource σ] in
theorem course_keeps (hstep : ∀ v : Walk g σ, P v.state → P (step v).state) (budget : Nat)
    (h : P w.state) : ∀ v ∈ w.course step budget, P v.state := by
  induction budget generalizing w with
  | zero => exact List.forall_mem_singleton.mpr h
  | succ budget ih =>
    rw [course]
    split_ifs
    · exact List.forall_mem_singleton.mpr h
    · rw [List.forall_mem_cons]
      exact ⟨h, ih (hstep w h)⟩

theorem annealCourse_keeps (hP : IsKept P) (settings : SamplerSettings) (steps : Nat)
    (temperature : Float) (h : P w.state) :
    ∀ v ∈ w.annealCourse settings steps temperature, P v.state := by
  induction steps generalizing temperature w with
  | zero => exact List.forall_mem_singleton.mpr h
  | succ steps ih =>
    rw [annealCourse, List.forall_mem_cons]
    exact ⟨h, ih _ (anneal_keeps hP temperature h)⟩

theorem drawCourse_keeps (hP : IsKept P) (settings : SamplerSettings) (h : P w.state) :
    ∀ v ∈ w.drawCourse settings, P v.state := by
  have hfound := search_keeps hP settings settings.maxFlips h
  unfold drawCourse
  dsimp only
  rw [List.forall_mem_append]
  refine ⟨course_keeps (fun v => searchStep_keeps hP settings) settings.maxFlips h, ?_⟩
  split_ifs
  · exact fun v hv => nomatch hv
  · rw [List.forall_mem_append]
    refine ⟨annealCourse_keeps hP settings _ _ hfound, ?_⟩
    apply course_keeps (fun v => walk_keeps hP settings.greedyChance)
    exact annealFor_keeps hP settings _ _ hfound

/-! #### Where they begin -/

theorem isKept_isMovable (hg : g.IsIndexed) : IsKept (SearchState.IsMovable (g := g)) :=
  fun _ _ h hstep => h.step hg hstep

/-- A round begins with a state in which a search can move, whether values are propagated or not,
and with or without a conflict. -/
theorem isMovable_beginRound (hg : g.IsIndexed) (h : w.state.IsConsistent)
    (settings : SamplerSettings) : (w.beginRound settings).2.state.IsMovable := by
  have hselected := isConsistent_selected h
  rcases beginRound_eq (w := w) settings with heq | ⟨forced, hforced, heq⟩
  · rw [heq]
    apply SearchState.isMovable_of_no_pins hselected pinned_selected
    exact fun c hc => SearchState.isSearchable_of_setActive h.unpin.toIsTallied _ _ hc
  · rw [heq]
    exact SearchState.isMovable_pinForced hg hselected pinned_selected hforced

/-- The walk with which a chain begins to mend the hard constraints. -/
def opening (g : SearchGraph α) (settings : SamplerSettings) (random : σ) : Walk g σ :=
  let (truth, random) := SearchState.initialTruth g.atoms settings.randomStart random
  ⟨(SearchState.start g .count truth).setActiveWhere GroundWeight.isHard, random, 0⟩

theorem begin_eq (settings : SamplerSettings) (random : σ) : Walk.begin g settings random =
    ((opening g settings random).repair settings.greedyChance settings.maxFlips).2 :=
  rfl

end Walk

namespace SearchState

/-- With nothing pinned, a search can move whatever constraints it begins with. -/
theorem isMovable_start (measure : Measure) (truth : Vector Bool g.atoms)
    (test : GroundWeight α → Bool) : ((start g measure truth).setActiveWhere test).IsMovable := by
  have hstart := isConsistent_start (g := g) measure truth
  apply isMovable_of_no_pins (hstart.setActive _ ())
  · intro a
    rw [((start g measure truth).setActive_leaves _ ()).2.1]
    exact Vector.getElem_replicate a.isLt
  · exact fun c hc => isSearchable_of_setActive hstart.toIsTallied _ () hc

end SearchState

/-! ### The walks of a chain -/

/-- The walks that a chain comes through. -/
def Chain.course (g : SearchGraph α) (settings : SamplerSettings) (stop : Nat → Bool)
    (random : σ) : List (Walk g σ) :=
  (Walk.opening g settings random).course (fun v => v.walk settings.greedyChance)
      settings.maxFlips ++
    (Chain.starts g settings stop random).flatMap fun w =>
      (w.beginRound settings).2.drawCourse settings

/-- The rounds end where the last draw does. -/
theorem Walk.getLast?_append_draws {settings : SamplerSettings} {stop : Nat → Bool}
    (left done : Nat) {w : Walk g σ} (chain : Chain g.atoms α) {before : List (Walk g σ)}
    (hbefore : before.getLast? = some w) :
    (before ++ (w.starts settings stop left done).flatMap fun v =>
        (v.beginRound settings).2.drawCourse settings).getLast? =
      some (w.rounds settings stop left done chain).1 := by
  induction left generalizing done w chain before with
  | zero =>
    rw [starts, List.flatMap_nil, List.append_nil]
    exact hbefore
  | succ left ih =>
    rw [starts, rounds]
    split_ifs
    · rw [List.flatMap_nil, List.append_nil]
      exact hbefore
    · rw [List.flatMap_cons, ← List.append_assoc]
      apply ih (done + 1) (w.round settings chain).2
      rw [List.getLast?_append, getLast?_drawCourse]
      rfl

/-- The course of a chain ends with the walk that its rounds end with. -/
theorem Chain.getLast?_course (settings : SamplerSettings) (stop : Nat → Bool) (random : σ)
    (chain : Chain g.atoms α) : (Chain.course g settings stop random).getLast? =
      some ((Walk.begin g settings random).rounds settings stop settings.samples 0 chain).1 := by
  apply Walk.getLast?_append_draws
  rw [Walk.begin_eq]
  exact Walk.getLast?_course (Walk.repair settings.greedyChance) (fun _ => rfl)
    (fun _ _ => rfl) settings.maxFlips _

theorem Chain.isMovable_course (hg : g.IsIndexed) (settings : SamplerSettings)
    (stop : Nat → Bool) (random : σ) :
    ∀ w ∈ Chain.course g settings stop random, w.state.IsMovable := by
  have hkept := Walk.isKept_isMovable hg
  unfold Chain.course
  rw [List.forall_mem_append]
  refine ⟨?_, fun v hv => ?_⟩
  · apply Walk.course_keeps fun v => Walk.walk_keeps hkept settings.greedyChance
    exact SearchState.isMovable_start .count _ GroundWeight.isHard
  · obtain ⟨w, hw, hv⟩ := List.mem_flatMap.mp hv
    have hconsistent := Walk.isConsistent_of_mem_starts hg settings.samples 0
      (Walk.isConsistent_begin hg settings random) w hw
    have hbegin := Walk.isMovable_beginRound hg hconsistent settings
    exact Walk.drawCourse_keeps hkept settings hbegin v hv

/-! ### The states of a try -/

namespace Try

variable {t : Try g σ} {greedyChance : Float} {target : α} {stop : Nat → Bool}

/-- The tries that a try comes through. -/
def course (greedyChance : Float) (target : α) (stop : Nat → Bool) :
    Nat → Nat → Try g σ → List (Try g σ)
  | 0, _, t => [t]
  | left + 1, done, t =>
    match t.move? greedyChance target stop done with
    | none => [t]
    | some next => t :: course greedyChance target stop left (done + 1) next

/-- Their assignments are the one that the try begins with and those after its moves. -/
theorem map_truth_course (left done : Nat) (t : Try g σ) :
    (t.course greedyChance target stop left done).map (fun t => t.state.truth) =
      t.state.truth :: t.trail greedyChance target stop left done := by
  induction left generalizing done t with
  | zero => rfl
  | succ left ih =>
    rw [course, trail]
    cases t.move? greedyChance target stop done with
    | none => rfl
    | some next => exact congrArg (t.state.truth :: ·) (ih (done + 1) next)

theorem isMovable_course (hg : g.IsIndexed) (left done : Nat) (h : t.state.IsMovable) :
    ∀ v ∈ t.course greedyChance target stop left done, v.state.IsMovable := by
  induction left generalizing done t with
  | zero => exact List.forall_mem_singleton.mpr h
  | succ left ih =>
    rw [course]
    cases hmove : t.move? greedyChance target stop done with
    | none => exact List.forall_mem_singleton.mpr h
    | some next =>
      obtain ⟨moved, hstep, -, -, rfl⟩ := exists_of_move?_eq_some hmove
      have hnext : moved.keepBest.state.IsMovable := by
        rw [moved.keepBest_leaves.1]
        exact h.step hg hstep
      dsimp only
      rw [List.forall_mem_cons]
      exact ⟨h, ih (done + 1) hnext⟩

end Try

/-- The tries that the next try comes through. -/
def Tries.course (g : SearchGraph α) (settings : OptimizerSettings) (target : α)
    (stop : Nat → Nat → Bool) (found : Tries g.atoms α) (random : σ) : List (Try g σ) :=
  (Try.begin g settings.randomStart random).course settings.greedyChance target
    (stop found.tries) settings.maxFlips 0

theorem Tries.map_truth_course (settings : OptimizerSettings) (target : α)
    (stop : Nat → Nat → Bool) (found : Tries g.atoms α) (random : σ) :
    (Tries.course g settings target stop found random).map (fun t => t.state.truth) =
      Tries.path g settings target stop found random :=
  Try.map_truth_course settings.maxFlips 0 _

/-! ### Searches over a grounding -/

namespace Network

/-- In every state that a chain or a try over a grounding comes through, a walk step makes a move
while an active constraint is bad, and the move is one that the constraint needs which it takes. -/
theorem never_stalls {chunkSize : Nat} {b : Builtins} {e : Evidence} {clauses : List (Clause α)}
    {query : List Signature} {n m : Network α}
    (h : ground chunkSize b e clauses query = .ok n) (hm : n.Reaches m) :
    let g := SearchGraph.ofNetwork m
    (∀ (settings : SamplerSettings) (stop : Nat → Bool) (random : σ),
      ∀ w ∈ Chain.course g settings stop random, w.state.IsUnstalled) ∧
    ∀ (settings : OptimizerSettings) (target : α) (stop : Nat → Nat → Bool)
      (found : Tries g.atoms α) (random : σ),
      ∀ t ∈ Tries.course g settings target stop found random, t.state.IsUnstalled := by
  intro g
  have hg : g.IsIndexed := SearchGraph.isIndexed_ofNetwork m
  have hatoms : g.HasDistinctAtoms := hasDistinctAtoms_of_ground h hm
  refine ⟨fun settings stop random w hw => ?_, fun settings target stop found random t ht => ?_⟩
  · exact (Chain.isMovable_course hg settings stop random w hw).isUnstalled hatoms
  · have hbegin : (Try.begin g settings.randomStart random).state.IsMovable :=
      SearchState.isMovable_start .weighted _ fun _ => true
    exact (Try.isMovable_course hg settings.maxFlips 0 hbegin t ht).isUnstalled hatoms

/-- Two rounds of a chain that pins nothing, with an annealing step in each. -/
def openChain : SamplerSettings :=
  { shortChain with
    samples := 2
    lateSteps := some 1
    propagation := false }

/-- On the small theory, a chain mends a bad constraint at the beginning and one after the annealing
of each round, and a short try ends with a bad one. -/
theorem never_stalls_weather :
    ∃ n, ground 1 ⟨[], []⟩ Weather.evidence Weather.clauses [] = .ok n ∧ n.Reaches n ∧
      let g := SearchGraph.ofNetwork n
      ((Chain.course g openChain (fun _ => false) SearchState.First.first).map
        fun w => w.state.bad.size) = [1, 0, 0, 0, 1, 1, 0, 0, 0, 1, 1, 0] ∧
      ((Tries.course g shortTries 0 (fun _ _ => false) ⟨none, 0, 0, false⟩
        SearchState.First.first).map fun t => t.state.bad.size) = [2, 2, 2, 1] ∧
      (∀ (settings : SamplerSettings) (stop : Nat → Bool) (random : SearchState.First),
        ∀ w ∈ Chain.course g settings stop random, w.state.IsUnstalled) ∧
      ∀ (settings : OptimizerSettings) (target : ℚ) (stop : Nat → Nat → Bool)
        (found : Tries g.atoms ℚ) (random : SearchState.First),
        ∀ t ∈ Tries.course g settings target stop found random, t.state.IsUnstalled := by
  have hrun : ((ground 1 ⟨[], []⟩ Weather.evidence Weather.clauses []).toOption.any fun n =>
      let g := SearchGraph.ofNetwork n
      ((Chain.course g openChain (fun _ => false) SearchState.First.first).map
        fun w => w.state.bad.size) == [1, 0, 0, 0, 1, 1, 0, 0, 0, 1, 1, 0] &&
      ((Tries.course g shortTries 0 (fun _ _ => false) ⟨none, 0, 0, false⟩
        SearchState.First.first).map fun t => t.state.bad.size) == [2, 2, 2, 1]) = true := by
    decide +kernel
  obtain ⟨n, hn, hrun⟩ := Except.any_toOption_iff.mp hrun
  obtain ⟨hchain, htry⟩ := Bool.and_eq_true_iff.mp hrun
  exact ⟨n, hn, .refl, beq_iff_eq.mp hchain, beq_iff_eq.mp htry, never_stalls hn .refl⟩

end Network

end LogicNetwork
