import LogicNetwork.Proofs.Fallible
import LogicNetwork.Proofs.Grounding.Results
import Mathlib.Data.List.Iterate

/-!
# Workers on chunks

A worker works through one chunk of a clause.  It shares with other workers the contributions made
so far, to which it adds one at a time, and a flag that it raises when it meets a contradiction; if
it notices a raised flag before its first substitution, it has nothing to do.  It may be
interrupted between its turns (`Worker.step`).

`Worker.effect_step` says all that one turn can do.  A worker that is not interrupted does what
working through its substitutions alone does (`Worker.turns_working_of_ok`).
-/

namespace LogicNetwork

/-! ### Workers -/

/-- A worker on a chunk of a clause. -/
inductive Worker
  /-- Has not begun. -/
  | waiting (c : ResolvedClause) (chunk : Chunk)
  /-- Has so many substitutions left, from a binding on. -/
  | working (c : ResolvedClause) (left : Nat) (binding : List Nat) (stats : GroundingStats)
  | finished (result : Except GroundingError GroundingStats)

/-- What workers share: the contributions so far, latest first, and the flag. -/
structure Board where
  contributions : List Contribution
  abort : Bool

namespace Worker

/-- One turn of a worker. It begins, takes in one substitution, or ends. The flag is read without
any order among threads, so a worker need not notice it. -/
def step (notices : Bool) (board : Board) : Worker → Worker × Board
  | waiting c chunk =>
    if board.abort && notices then (finished (.ok .zero), board)
    else
      (working c (chunk.stop - chunk.start) (MixedRadix.digits c.radices chunk.start) .zero, board)
  | working _ 0 _ stats => (finished (.ok stats), board)
  | working c (left + 1) binding stats =>
    match (GroundingRun.mk stats board.contributions).record c binding with
    | .ok run =>
      (working c left (MixedRadix.next c.radices binding) run.stats,
        { board with contributions := run.contributions })
    | .error fault => (finished (.error fault), { board with abort := true })
  | finished result => (finished result, board)

/-- How many turns a worker has left at most. -/
def turnsLeft : Worker → Nat
  | waiting _ chunk => chunk.stop - chunk.start + 2
  | working _ left _ _ => left + 1
  | finished _ => 0

/-- Turns of a worker that takes them all and notices the flag. -/
def turns : Nat → Worker → Board → Worker × Board
  | 0, w, board => (w, board)
  | n + 1, w, board => turns n (w.step true board).1 (w.step true board).2

/-- The substitutions that a worker has not taken in yet. -/
def pending : Worker → List (ResolvedClause × List Nat)
  | waiting c chunk =>
    (List.iterate (MixedRadix.next c.radices) (MixedRadix.digits c.radices chunk.start)
      (chunk.stop - chunk.start)).map (Prod.mk c)
  | working c left binding _ =>
    (List.iterate (MixedRadix.next c.radices) binding left).map (Prod.mk c)
  | finished _ => []

/-- The statistics of what a worker has taken in. -/
def stats : Worker → GroundingStats
  | waiting _ _ => 0
  | working _ _ _ stats => stats
  | finished result => result.toOption.getD 0

/-- The contradiction that a worker has met. -/
def fault? : Worker → Option GroundingError
  | finished (.error fault) => some fault
  | _ => none

/-- What a worker gives back. -/
def result (w : Worker) : Except GroundingError GroundingStats :=
  match w.fault? with
  | some fault => .error fault
  | none => .ok w.stats

theorem turnsLeft_step (w : Worker) (notices : Bool) (board : Board) :
    (w.step notices board).1.turnsLeft ≤ w.turnsLeft - 1 := by
  cases w with
  | waiting c chunk =>
    rw [step]
    split
    · exact Nat.zero_le _
    · exact Nat.le_refl _
  | working c left binding stats =>
    cases left with
    | zero => exact Nat.le_refl _
    | succ left =>
      rw [step]
      split
      · exact Nat.le_refl _
      · exact Nat.zero_le _
  | finished result => exact Nat.le_refl _

theorem turnsLeft_turns (n : Nat) (w : Worker) (board : Board) :
    (w.turns n board).1.turnsLeft ≤ w.turnsLeft - n := by
  induction n generalizing w board with
  | zero => exact Nat.le_refl _
  | succ n ih =>
    have hstep := w.turnsLeft_step true board
    have hrest := ih (w.step true board).1 (w.step true board).2
    rw [turns]
    omega

theorem pending_eq_nil {w : Worker} (h : w.turnsLeft = 0) : w.pending = [] := by
  cases w with
  | waiting c chunk => cases h
  | working c left binding stats => cases h
  | finished result => rfl

/-- What a turn can do to a worker and to what the workers share. -/
inductive Effect (w : Worker) (board : Board) : Worker → Board → Prop
  /-- Nothing is taken in. -/
  | quiet {w' : Worker} (pending : w'.pending = w.pending) (stats : w'.stats = w.stats)
    (fault : w'.fault? = w.fault?) : Effect w board w' board
  /-- A substitution that contradicts nothing is taken in. -/
  | record {w' : Worker} (c : ResolvedClause) (binding : List Nat)
    (pending : w.pending = (c, binding) :: w'.pending)
    (consistent : c.contradicts binding = false)
    (stats : w'.stats = w.stats + c.statsOf binding) (fault : w.fault? = none)
    (fault' : w'.fault? = none) :
    Effect w board w'
      { board with contributions := (c.contribution? binding).toList ++ board.contributions }
  /-- A substitution contradicts its clause. -/
  | fail (c : ResolvedClause) (binding : List Nat) (mem : (c, binding) ∈ w.pending)
    (contradicts : c.contradicts binding = true) :
    Effect w board (finished (.error (.hardClauseViolated c.index (c.describe binding))))
      { board with abort := true }
  /-- The flag is noticed. -/
  | skip (abort : board.abort = true) (fault : w.fault? = none) :
    Effect w board (finished (.ok 0)) board

/-- Every turn has one of these effects. -/
theorem effect_step (w : Worker) (notices : Bool) (board : Board) :
    w.Effect board (w.step notices board).1 (w.step notices board).2 := by
  cases w with
  | waiting c chunk =>
    rw [step]
    split
    · rename_i h
      rw [Bool.and_eq_true] at h
      exact .skip h.1 rfl
    · exact .quiet rfl rfl rfl
  | working c left binding stats =>
    cases left with
    | zero => exact .quiet rfl rfl rfl
    | succ left =>
      rw [step, GroundingRun.record_eq]
      cases hcontra : c.contradicts binding with
      | true => exact .fail c binding List.mem_cons_self hcontra
      | false =>
        have hstats := GroundingStats.count_eq_add stats (c.outcome binding)
        exact .record c binding rfl hcontra hstats rfl rfl
  | finished result => exact .quiet rfl rfl rfl

/-! ### A worker alone -/

theorem turns_finished (n : Nat) (result : Except GroundingError GroundingStats)
    (board : Board) : (finished result).turns n board = (finished result, board) := by
  induction n with
  | zero => rfl
  | succ n ih => exact ih

variable {c : ResolvedClause} {left : Nat} {binding : List Nat} {stats : GroundingStats}
  {xs : List Contribution} {abort : Bool}

/-- A worker that is not interrupted works through its substitutions as if it were alone. -/
theorem turns_working_of_ok {run : GroundingRun}
    (h : GroundingRun.recordFrom c left binding ⟨stats, xs⟩ = .ok run) :
    (working c left binding stats).turns (left + 1) ⟨xs, abort⟩ =
      (finished (.ok run.stats), ⟨run.contributions, abort⟩) := by
  induction left generalizing binding stats xs with
  | zero =>
    cases h
    rfl
  | succ left ih =>
    -- one turn is one step of the run, and the last turn is the one that ends
    rw [GroundingRun.recordFrom, Except.bind_eq_ok_iff] at h
    obtain ⟨next, hnext, h⟩ := h
    rw [turns, step, hnext]
    exact ih h

theorem turns_working_of_error {fault : GroundingError}
    (h : GroundingRun.recordFrom c left binding ⟨stats, xs⟩ = .error fault) :
    ((working c left binding stats).turns (left + 1) ⟨xs, abort⟩).1 =
      finished (.error fault) := by
  induction left generalizing binding stats xs with
  | zero => cases h
  | succ left ih =>
    rw [turns, step]
    rcases Except.bind_eq_error_iff.mp h with hnext | ⟨next, hnext, h⟩
    · -- the turns that are left do nothing
      rw [hnext]
      exact congrArg Prod.fst (turns_finished _ _ _)
    · rw [hnext]
      exact ih h

end Worker

end LogicNetwork
