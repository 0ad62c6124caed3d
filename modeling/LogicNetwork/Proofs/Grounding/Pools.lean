import LogicNetwork.Proofs.Grounding.Workers

/-!
# Pools of workers

Clauses can be worked through by a pool of workers, one for each chunk.  Who takes the next turn is
up to a schedule (`Pool.run`), and when the schedule has run out the workers finish one after the
other (`Pool.finish`).

* `Pool.IsSound.step`: every turn keeps what the workers have done and what is left to do together;
* `Pool.isResultOf_ground`: under every schedule, the result is one that working through the
  substitutions in order may have;
* `Pool.ground_nil`: without a schedule, it is the result of working through them in order.
-/

namespace LogicNetwork

/-! ### Pools -/

/-- A turn of the worker at a place, and whether it notices a raised flag. -/
structure Turn where
  worker : Nat
  notices : Bool
deriving DecidableEq, Repr

/-- Workers with what they share. -/
structure Pool where
  workers : List Worker
  board : Board

namespace Pool

/-- The chunks of clauses whose substitutions have been counted, each with its clause. -/
def jobs (chunkSize : Nat) (counted : List (ResolvedClause × Nat)) :
    List (ResolvedClause × Chunk) :=
  counted.flatMap fun (c, total) => (chunks chunkSize total).map (Prod.mk c)

/-- Workers on jobs that have not begun. -/
def waitingFor (js : List (ResolvedClause × Chunk)) : List Worker :=
  js.map fun (c, chunk) => .waiting c chunk

/-- One worker for each job. -/
def start (chunkSize : Nat) (counted : List (ResolvedClause × Nat)) : Pool :=
  ⟨waitingFor (jobs chunkSize counted), ⟨[], false⟩⟩

/-- One turn; nothing happens at places of no worker. -/
def step (p : Pool) (t : Turn) : Pool :=
  match p.workers[t.worker]? with
  | none => p
  | some w =>
    ⟨p.workers.set t.worker (w.step t.notices p.board).1, (w.step t.notices p.board).2⟩

def run (p : Pool) (schedule : List Turn) : Pool :=
  schedule.foldl step p

/-- Lets workers finish one after the other. -/
def finishAll : List Worker → Board → List Worker × Board
  | [], board => ([], board)
  | w :: workers, board =>
    let (w', board') := w.turns w.turnsLeft board
    let (workers', board'') := finishAll workers board'
    (w' :: workers', board'')

def finish (p : Pool) : Pool :=
  ⟨(finishAll p.workers p.board).1, (finishAll p.workers p.board).2⟩

/-- What the workers give back together: the fault of the first that has met a contradiction, or
the sum of all statistics. -/
def result (p : Pool) : Except GroundingError GroundingRun := do
  let stats ← p.workers.mapM Worker.result
  .ok ⟨stats.sum, p.board.contributions⟩

/-- Works through all substitutions of clauses, with a worker for each chunk and turns as in a
schedule. -/
def ground (schedule : List Turn) (chunkSize : Nat) (counted : List (ResolvedClause × Nat)) :
    Except GroundingError GroundingRun :=
  (((start chunkSize counted).run schedule).finish).result

/-- Finished workers have nothing left to do. -/
theorem pending_finishAll {workers : List Worker} {board : Board} {w : Worker}
    (hw : w ∈ (finishAll workers board).1) : w.pending = [] := by
  induction workers generalizing board with
  | nil => cases hw
  | cons v workers ih =>
    rw [finishAll] at hw
    rcases List.mem_cons.mp hw with rfl | hw
    · have hleft := v.turnsLeft_turns v.turnsLeft board
      exact Worker.pending_eq_nil (by omega)
    · exact ih hw

/-! ### Soundness -/

/-- What turns keep true of a pool that is to work through substitutions: faults are those of
contradictions, the flag is raised just if there is one, and until then the substitutions are
those taken in and those pending. -/
structure IsSound (steps : List (ResolvedClause × List Nat)) (p : Pool) : Prop where
  pending : ∀ w ∈ p.workers, ∀ s ∈ w.pending, s ∈ steps
  fault : ∀ w ∈ p.workers, ∀ fault, w.fault? = some fault →
    ∃ s ∈ steps, s.1.contradicts s.2 = true ∧
      fault = .hardClauseViolated s.1.index (s.1.describe s.2)
  abort_iff : p.board.abort = true ↔ ∃ w ∈ p.workers, w.fault?.isSome = true
  work : p.board.abort = false → ∃ done : List (ResolvedClause × List Nat),
    (done ++ p.workers.flatMap Worker.pending).Perm steps ∧
    (∀ s ∈ done, s.1.contradicts s.2 = false) ∧
    (p.workers.map Worker.stats).sum = (done.map fun s => s.1.statsOf s.2).sum ∧
    p.board.contributions.Perm (done.filterMap fun s => s.1.contribution? s.2)

namespace IsSound

variable {steps : List (ResolvedClause × List Nat)} {p : Pool} {workers workers' : List Worker}
  {board board' : Board} {w w' : Worker}

/-- The places of the workers do not matter. -/
theorem perm (hperm : workers.Perm workers') (h : IsSound steps ⟨workers, board⟩) :
    IsSound steps ⟨workers', board⟩ where
  pending := by
    intro w hw
    exact h.pending w (hperm.mem_iff.mpr hw)
  fault := by
    intro w hw
    exact h.fault w (hperm.mem_iff.mpr hw)
  abort_iff := by
    rw [h.abort_iff]
    simp only [hperm.mem_iff]
  work := by
    intro habort
    obtain ⟨done, hdone, hconsistent, hstats, hcontributions⟩ := h.work habort
    refine ⟨done, ?_, hconsistent, ?_, hcontributions⟩
    · exact ((hperm.flatMap_right Worker.pending).symm.append_left done).trans hdone
    · rw [← hstats]
      exact (hperm.map Worker.stats).symm.sum_eq

/-- Every effect on a worker keeps a pool sound. -/
theorem effect (h : IsSound steps ⟨w :: workers, board⟩) (heffect : w.Effect board w' board') :
    IsSound steps ⟨w' :: workers, board'⟩ := by
  obtain ⟨hpending, hfault, habort, hwork⟩ := h
  rw [List.forall_mem_cons] at hpending hfault
  simp only [List.exists_mem_cons_iff] at habort
  cases heffect with
  | quiet hp hs hf =>
    refine ⟨?_, ?_, ?_, ?_⟩
    · rw [List.forall_mem_cons, hp]
      exact hpending
    · rw [List.forall_mem_cons, hf]
      exact hfault
    · simp only [List.exists_mem_cons_iff, hf]
      exact habort
    · simp only [List.flatMap_cons, List.map_cons, hp, hs]
      exact hwork
  | record c binding hp hconsistent hs hf hf' =>
    refine ⟨?_, ?_, ?_, ?_⟩
    · rw [List.forall_mem_cons]
      refine ⟨?_, hpending.2⟩
      intro s hmem
      exact hpending.1 s (hp ▸ List.mem_cons_of_mem _ hmem)
    · rw [List.forall_mem_cons, hf']
      exact ⟨nofun, hfault.2⟩
    · simp only [List.exists_mem_cons_iff, hf']
      rw [hf] at habort
      exact habort
    · -- the substitution moves from those pending to those taken in
      intro hboard
      obtain ⟨done, hdone, hall, hstats, hcontributions⟩ := hwork hboard
      refine ⟨(c, binding) :: done, ?_, ?_, ?_, ?_⟩
      · refine List.Perm.trans ?_ hdone
        rw [List.flatMap_cons, List.flatMap_cons, hp, List.cons_append, List.cons_append]
        exact List.perm_middle.symm
      · rw [List.forall_mem_cons]
        exact ⟨hconsistent, hall⟩
      · rw [List.map_cons, List.sum_cons] at hstats ⊢
        rw [List.map_cons, List.sum_cons, ← hstats, hs, add_right_comm, add_comm]
      · rw [List.filterMap_cons]
        cases c.contribution? binding with
        | none => exact hcontributions
        | some x => exact hcontributions.cons x
  | fail c binding hmem hcontra =>
    -- the flag is up from now on
    refine ⟨?_, ?_, ?_, nofun⟩
    · rw [List.forall_mem_cons]
      exact ⟨nofun, hpending.2⟩
    · rw [List.forall_mem_cons]
      refine ⟨?_, hfault.2⟩
      rintro fault ⟨⟩
      exact ⟨(c, binding), hpending.1 _ hmem, hcontra, rfl⟩
    · constructor
      · intro _
        exact ⟨_, List.mem_cons_self, rfl⟩
      · intro _
        rfl
  | skip hboard hf =>
    refine ⟨?_, ?_, ?_, ?_⟩
    · rw [List.forall_mem_cons]
      exact ⟨nofun, hpending.2⟩
    · rw [List.forall_mem_cons]
      exact ⟨nofun, hfault.2⟩
    · simp only [List.exists_mem_cons_iff]
      rw [hf] at habort
      exact habort
    · -- nothing is claimed any more about what has been taken in
      intro hnot
      rw [hboard] at hnot
      cases hnot

theorem effect_at {before after : List Worker}
    (h : IsSound steps ⟨before ++ w :: after, board⟩) (heffect : w.Effect board w' board') :
    IsSound steps ⟨before ++ w' :: after, board'⟩ := by
  have hfirst : IsSound steps ⟨w :: (before ++ after), board⟩ := h.perm List.perm_middle
  exact (hfirst.effect heffect).perm List.perm_middle.symm

theorem step (h : p.IsSound steps) (t : Turn) : (p.step t).IsSound steps := by
  unfold Pool.step
  split
  · exact h
  · -- the worker whose turn it is stands between those before and after it
    rename_i w hw
    obtain ⟨hlt, hget⟩ := List.getElem?_eq_some_iff.mp hw
    obtain ⟨before, after, hworkers, -, hset⟩ : ∃ before after,
        p.workers = before ++ p.workers[t.worker] :: after ∧ before.length = t.worker ∧
          p.workers.set t.worker (w.step t.notices p.board).1 =
            before ++ (w.step t.notices p.board).1 :: after :=
      List.exists_of_set hlt
    have hsound : IsSound steps ⟨before ++ w :: after, p.board⟩ := by
      rw [← hget, ← hworkers]
      exact h
    rw [hset]
    exact hsound.effect_at (w.effect_step t.notices p.board)

theorem run (h : p.IsSound steps) (schedule : List Turn) : (p.run schedule).IsSound steps := by
  induction schedule generalizing p with
  | nil => exact h
  | cons t schedule ih => exact ih (h.step t)

theorem turns {before after : List Worker} (n : Nat)
    (h : IsSound steps ⟨before ++ w :: after, board⟩) :
    IsSound steps ⟨before ++ (w.turns n board).1 :: after, (w.turns n board).2⟩ := by
  induction n generalizing w board with
  | zero => exact h
  | succ n ih => exact ih (h.effect_at (w.effect_step true board))

theorem finishAll {before : List Worker} (h : IsSound steps ⟨before ++ workers, board⟩) :
    IsSound steps
      ⟨before ++ (Pool.finishAll workers board).1, (Pool.finishAll workers board).2⟩ := by
  induction workers generalizing before board with
  | nil => exact h
  | cons w workers ih =>
    -- the worker that has finished joins those before
    have hnext := h.turns w.turnsLeft
    rw [← List.singleton_append, ← List.append_assoc] at hnext
    have hrest := ih hnext
    rw [List.append_assoc, List.singleton_append] at hrest
    exact hrest

theorem finish (h : p.IsSound steps) : p.finish.IsSound steps := by
  have hall : IsSound steps ⟨[] ++ p.workers, p.board⟩ := h
  exact hall.finishAll

/-- Without anything left to do, a sound pool has a result of its substitutions. -/
theorem isResultOf (h : p.IsSound steps) (hdone : ∀ w ∈ p.workers, w.pending = []) :
    IsResultOf steps p.result := by
  unfold result
  cases hresults : p.workers.mapM Worker.result with
  | error fault =>
    obtain ⟨w, hw, hresult⟩ := Except.exists_of_mapM_eq_error hresults
    apply h.fault w hw fault
    unfold Worker.result at hresult
    split at hresult
    · rename_i hfault
      cases hresult
      exact hfault
    · cases hresult
  | ok stats =>
    have hresult : ∀ w s, Worker.result w = .ok s → w.fault? = none ∧ s = w.stats := by
      intro w s hs
      unfold Worker.result at hs
      split at hs
      · cases hs
      · rename_i hnone
        cases hs
        exact ⟨hnone, rfl⟩
    have hstats := Except.map_eq_map_of_mapM_eq_ok (k := id) (g := Worker.stats) hresults
      fun w s hs => (hresult w s hs).2
    rw [List.map_id] at hstats
    -- no worker has met a contradiction, so the flag is down and the work is all there
    have hboard : p.board.abort = false := by
      rw [Bool.eq_false_iff, ne_eq, h.abort_iff]
      rintro ⟨w, hw, hsome⟩
      obtain ⟨s, -, hs⟩ := Except.exists_mem_of_mapM_eq_ok hresults hw
      rw [(hresult w s hs).1] at hsome
      cases hsome
    obtain ⟨done, hperm, hall, hsum, hcontributions⟩ := h.work hboard
    rw [List.flatMap_eq_nil_iff.mpr hdone, List.append_nil] at hperm
    refine ⟨?_, ?_, ?_⟩
    · intro s hs
      exact hall s (hperm.mem_iff.mpr hs)
    · show stats.sum = _
      rw [hstats, hsum]
      exact (hperm.map _).sum_eq
    · exact hcontributions.trans (hperm.filterMap _)

end IsSound

/-! ### The whole work -/

/-- Counting up from a numeral lists the numerals that follow it. -/
theorem iterate_next_digits {rs : List Nat} (hpos : ∀ r ∈ rs, 0 < r) (n start : Nat) :
    List.iterate (MixedRadix.next rs) (MixedRadix.digits rs start) n =
      (List.range' start n).map (MixedRadix.digits rs) := by
  induction n generalizing start with
  | zero => rfl
  | succ n ih => rw [List.iterate, MixedRadix.next_digits hpos, ih, List.range'_succ, List.map_cons]

/-- The workers on the chunks of a clause have its substitutions before them. -/
theorem flatMap_pending_chunks (chunkSize : Nat) (c : ResolvedClause) :
    (waitingFor ((chunks chunkSize (MixedRadix.count c.radices)).map (Prod.mk c))).flatMap
        Worker.pending =
      (MixedRadix.numerals c.radices).map (Prod.mk c) := by
  -- counting up is only possible where there is something to count
  rcases Nat.eq_zero_or_pos (MixedRadix.count c.radices) with hzero | hpos
  · rw [MixedRadix.numerals, hzero, chunks_zero]
    rfl
  · have hradices := MixedRadix.count_pos_iff.mp hpos
    have hchunk : (fun chunk => (Worker.waiting c chunk).pending) = fun chunk =>
        ((List.range' chunk.start (chunk.stop - chunk.start)).map
          (MixedRadix.digits c.radices)).map (Prod.mk c) := by
      funext chunk
      rw [Worker.pending, iterate_next_digits hradices]
    rw [waitingFor, List.map_map, List.flatMap_map]
    show (chunks chunkSize (MixedRadix.count c.radices)).flatMap
      (fun chunk => (Worker.waiting c chunk).pending) = _
    rw [hchunk, MixedRadix.numerals, ← flatMap_chunks chunkSize, List.map_flatMap,
      List.map_flatMap]

theorem flatMap_pending_start (chunkSize : Nat) (clauses : List ResolvedClause) :
    (waitingFor (jobs chunkSize
        (clauses.zip (clauses.map fun c => MixedRadix.count c.radices)))).flatMap Worker.pending =
      substitutionsOf clauses := by
  unfold jobs substitutionsOf
  induction clauses with
  | nil => rfl
  | cons c clauses ih =>
    rw [List.map_cons, List.zip_cons_cons, List.flatMap_cons, waitingFor, List.map_append,
      List.flatMap_append]
    exact congr (congrArg _ (flatMap_pending_chunks chunkSize c)) ih

theorem isSound_start (chunkSize : Nat) (clauses : List ResolvedClause) :
    (start chunkSize (clauses.zip (clauses.map fun c => MixedRadix.count c.radices))).IsSound
      (substitutionsOf clauses) := by
  have hpending := flatMap_pending_start chunkSize clauses
  have hwaiting : ∀ js, ∀ w ∈ waitingFor js, w.fault? = none ∧ w.stats = 0 := by
    intro js w hw
    obtain ⟨⟨c, chunk⟩, -, rfl⟩ := List.mem_map.mp hw
    exact ⟨rfl, rfl⟩
  refine ⟨?_, ?_, ?_, ?_⟩
  · intro w hw s hs
    rw [← hpending]
    exact List.mem_flatMap.mpr ⟨w, hw, hs⟩
  · intro w hw fault hfault
    rw [(hwaiting _ w hw).1] at hfault
    cases hfault
  · constructor
    · intro h
      cases h
    · rintro ⟨w, hw, hsome⟩
      rw [(hwaiting _ w hw).1] at hsome
      cases hsome
  · intro _
    refine ⟨[], ?_, nofun, ?_, .nil⟩
    · rw [List.nil_append]
      exact .of_eq hpending
    · rw [start, List.map_congr_left fun w hw => (hwaiting _ w hw).2, List.map_const',
        List.sum_replicate]
      exact nsmul_zero _

/-- Whatever the schedule and the size of the chunks, a pool has a result of the substitutions of
its clauses. -/
theorem isResultOf_ground (schedule : List Turn) (chunkSize : Nat)
    (clauses : List ResolvedClause) :
    IsResultOf (substitutionsOf clauses)
      (ground schedule chunkSize
        (clauses.zip (clauses.map fun c => MixedRadix.count c.radices))) := by
  have hsound := (isSound_start chunkSize clauses).run schedule
  exact hsound.finish.isResultOf fun w hw => pending_finishAll hw

end Pool

/-! ### No schedule -/

namespace GroundingRun

/-- A run with statistics from before. -/
def addStats (s : GroundingStats) (run : GroundingRun) : GroundingRun :=
  ⟨s + run.stats, run.contributions⟩

theorem record_addStats (s : GroundingStats) (run : GroundingRun) (c : ResolvedClause)
    (binding : List Nat) :
    (addStats s run).record c binding = (run.record c binding).map (addStats s) := by
  rw [record_eq, record_eq]
  split
  · rfl
  · show Except.ok _ = Except.ok _
    rw [advance, advance, addStats, addStats, GroundingStats.count_eq_add,
      GroundingStats.count_eq_add, add_assoc]

theorem recordFrom_addStats (s : GroundingStats) (c : ResolvedClause) (n : Nat)
    (binding : List Nat) (run : GroundingRun) :
    recordFrom c n binding (addStats s run) = (recordFrom c n binding run).map (addStats s) := by
  induction n generalizing binding run with
  | zero => rfl
  | succ n ih =>
    rw [recordFrom, recordFrom, record_addStats]
    cases run.record c binding with
    | error fault => rfl
    | ok next => exact ih _ next

/-- Works through the jobs one after the other. -/
def recordJobs (run : GroundingRun) (js : List (ResolvedClause × Chunk)) :
    Except GroundingError GroundingRun :=
  js.foldlM (fun (run : GroundingRun) (c, chunk) => run.recordChunk c chunk) run

end GroundingRun

theorem groundAll_eq_recordJobs (chunkSize : Nat) (counted : List (ResolvedClause × Nat)) :
    groundAll chunkSize counted = GroundingRun.start.recordJobs (Pool.jobs chunkSize counted) := by
  unfold groundAll GroundingRun.recordJobs Pool.jobs
  generalize GroundingRun.start = run
  induction counted generalizing run with
  | nil => rfl
  | cons k counted ih =>
    rw [List.foldlM_cons, List.flatMap_cons, List.foldlM_append, List.foldlM_map]
    exact bind_congr fun next => ih next

theorem GroundingRun.recordJobs_cons (s : GroundingStats) (xs : List Contribution)
    (c : ResolvedClause) (chunk : Chunk) (js : List (ResolvedClause × Chunk)) :
    (mk s xs).recordJobs ((c, chunk) :: js) =
      (mk 0 xs).recordChunk c chunk >>= fun run =>
        (mk (s + run.stats) run.contributions).recordJobs js := by
  have hchunk : (mk s xs).recordChunk c chunk =
      ((mk 0 xs).recordChunk c chunk).map (addStats s) := by
    rw [recordChunk, recordChunk, ← recordFrom_addStats, addStats, add_zero]
  show (mk s xs).recordChunk c chunk >>= (fun run => run.recordJobs js) = _
  rw [hchunk]
  cases (mk 0 xs).recordChunk c chunk <;> rfl

namespace Pool

variable {c : ResolvedClause} {chunk : Chunk} {js : List (ResolvedClause × Chunk)}
  {s : GroundingStats} {xs : List Contribution} {run : GroundingRun} {fault : GroundingError}

theorem finishAll_cons_of_ok (h : (GroundingRun.mk 0 xs).recordChunk c chunk = .ok run) :
    finishAll (waitingFor ((c, chunk) :: js)) ⟨xs, false⟩ =
      (.finished (.ok run.stats) :: (finishAll (waitingFor js) ⟨run.contributions, false⟩).1,
        (finishAll (waitingFor js) ⟨run.contributions, false⟩).2) := by
  have hturns : (Worker.waiting c chunk).turns (Worker.waiting c chunk).turnsLeft ⟨xs, false⟩ =
      (.finished (.ok run.stats), ⟨run.contributions, false⟩) :=
    Worker.turns_working_of_ok h
  rw [waitingFor, List.map_cons, finishAll, hturns]
  rfl

theorem finishAll_cons_of_error (js : List (ResolvedClause × Chunk))
    (h : (GroundingRun.mk 0 xs).recordChunk c chunk = .error fault) :
    ∃ workers, (finishAll (waitingFor ((c, chunk) :: js)) ⟨xs, false⟩).1 =
      .finished (.error fault) :: workers := by
  have hturns : ((Worker.waiting c chunk).turns (Worker.waiting c chunk).turnsLeft
      ⟨xs, false⟩).1 = .finished (.error fault) :=
    Worker.turns_working_of_error h
  rw [waitingFor, List.map_cons, finishAll, ← hturns]
  exact ⟨_, rfl⟩

/-- Workers that finish one after the other have what working through their jobs gives, apart from
the statistics from before. -/
theorem finishAll_of_recordJobs_eq_ok (h : (GroundingRun.mk s xs).recordJobs js = .ok run) :
    ∃ stats : List GroundingStats, run.stats = s + stats.sum ∧
      finishAll (waitingFor js) ⟨xs, false⟩ =
        (stats.map fun t => .finished (.ok t), ⟨run.contributions, false⟩) := by
  induction js generalizing s xs with
  | nil =>
    cases h
    exact ⟨[], (add_zero s).symm, rfl⟩
  | cons j js ih =>
    rw [GroundingRun.recordJobs_cons] at h
    obtain ⟨first, hfirst, hrest⟩ := Except.bind_eq_ok_iff.mp h
    obtain ⟨stats, hstats, hworkers⟩ := ih hrest
    refine ⟨first.stats :: stats, ?_, ?_⟩
    · rw [hstats, List.sum_cons, add_assoc]
    · rw [finishAll_cons_of_ok hfirst, hworkers]
      rfl

theorem mapM_result_of_recordJobs_eq_error
    (h : (GroundingRun.mk s xs).recordJobs js = .error fault) :
    (finishAll (waitingFor js) ⟨xs, false⟩).1.mapM Worker.result = .error fault := by
  induction js generalizing s xs with
  | nil => cases h
  | cons j js ih =>
    rw [GroundingRun.recordJobs_cons] at h
    rcases Except.bind_eq_error_iff.mp h with hfirst | ⟨first, hfirst, hrest⟩
    · -- the first fault decides, whatever the workers after it do
      obtain ⟨workers, hworkers⟩ := finishAll_cons_of_error js hfirst
      rw [hworkers, List.mapM_cons]
      rfl
    · rw [finishAll_cons_of_ok hfirst, List.mapM_cons, ih hrest]
      rfl

/-- Without a schedule, a pool does what working through its clauses one after the other does. -/
theorem ground_nil (chunkSize : Nat) (counted : List (ResolvedClause × Nat)) :
    ground [] chunkSize counted = groundAll chunkSize counted := by
  rw [groundAll_eq_recordJobs, GroundingRun.start]
  show (finish ⟨waitingFor (jobs chunkSize counted), ⟨[], false⟩⟩).result = _
  rw [result, finish]
  cases hjobs : (GroundingRun.mk .zero []).recordJobs (jobs chunkSize counted) with
  | error fault =>
    rw [mapM_result_of_recordJobs_eq_error hjobs]
    rfl
  | ok run =>
    obtain ⟨stats, hstats, hworkers⟩ := finishAll_of_recordJobs_eq_ok hjobs
    have hresults : (stats.map fun t => Worker.finished (.ok t)).mapM Worker.result =
        .ok stats := by
      rw [List.mapM_map]
      exact (Except.mapM_eq_ok_map fun t _ => rfl).trans (congrArg _ (List.map_id stats))
    rw [hworkers, hresults]
    show Except.ok (GroundingRun.mk stats.sum run.contributions) = _
    rw [← zero_add stats.sum]
    exact congrArg (fun t => Except.ok (GroundingRun.mk t run.contributions)) hstats.symm

end Pool

end LogicNetwork
