import LogicNetwork.Proofs.Grounding.Pools
import LogicNetwork.Proofs.Network.Schedules
import Mathlib.Data.Set.Function

/-!
# Cutting and counting

The chunks of a clause can be cut off one after the other, each from the end of the one before it
on (`cutFrom`).  That every end is a 64-bit number is the condition under which this goes through,
and the chunks are then those that are given by their numbers (`cutFrom_zero`): they fill the
numbers below the total in order, without gap or overlap (`tiles_of_cutFrom`).

`chunks_visit_once` puts this together with counting up: numbers below the total and tuples of
valid constant numbers are in one-to-one correspondence, a chunk steps through its part of them,
and the whole of a clause is worked through substitution by substitution.
-/

namespace LogicNetwork

/-! ### Cutting -/

/-- Cuts the numbers from a start up to a total into chunks of a size; a size of zero counts as
one. The end of each chunk, as if it were full, has to be a 64-bit number. -/
def cutFrom (size total start : Nat) : Except Abort (List Chunk) :=
  if start < total then
    if start + max size 1 < wordBound then do
      let rest ← cutFrom size total (min total (start + max size 1))
      .ok (⟨start, min total (start + max size 1)⟩ :: rest)
    else .error (.misuse .excessiveSum)
  else .ok []
termination_by total - start
decreasing_by omega

/-- Whether chunks fill the numbers from a start up to a stop, in order and none of them empty. -/
def Tiles : List Chunk → Nat → Nat → Prop
  | [], start, stop => start = stop
  | k :: ks, start, stop => k.start = start ∧ k.start < k.stop ∧ Tiles ks k.stop stop

/-- Cutting leaves no gap and no overlap. -/
theorem tiles_of_cutFrom {size total start : Nat} {ks : List Chunk} (hle : start ≤ total)
    (h : cutFrom size total start = .ok ks) : Tiles ks start total := by
  induction start using cutFrom.induct size total generalizing ks with
  | case1 start hlt hend ih =>
    rw [cutFrom, if_pos hlt, if_pos hend] at h
    obtain ⟨rest, hrest, hks⟩ := Except.bind_eq_ok_iff.mp h
    cases hks
    exact ⟨rfl, by simp only; omega, ih (by omega) hrest⟩
  | case2 start hlt hend =>
    rw [cutFrom, if_pos hlt, if_neg hend] at h
    cases h
  | case3 start hlt =>
    rw [cutFrom, if_neg hlt] at h
    cases h
    exact (by omega : start = total)

/-- The chunks are those that begin below the total. -/
theorem lt_chunkCount_iff {size total k : Nat} :
    k < chunkCount size total ↔ k * max size 1 < total := by
  have hstep : (k + 1) * max size 1 = k * max size 1 + max size 1 := Nat.succ_mul _ _
  rw [chunkCount, Nat.lt_iff_add_one_le, Nat.le_div_iff_mul_le (by omega), hstep]
  omega

/-- The chunks from a number on, as cutting them one after the other gives them. -/
theorem cutFrom_mul {size total k : Nat}
    (hend : chunkCount size total * max size 1 < wordBound) (hk : k ≤ chunkCount size total) :
    cutFrom size total (min total (k * max size 1)) =
      .ok ((List.range' k (chunkCount size total - k)).map fun k =>
        ⟨k * max size 1, min total ((k + 1) * max size 1)⟩) := by
  -- induction on the number of chunks that are left
  induction hleft : chunkCount size total - k generalizing k with
  | zero =>
    have hreached : ¬ k * max size 1 < total := by
      rw [← lt_chunkCount_iff]
      omega
    rw [cutFrom, if_neg (by omega)]
    rfl
  | succ left ih =>
    have hbegun : k * max size 1 < total := lt_chunkCount_iff.mp (by omega)
    have hstep : (k + 1) * max size 1 = k * max size 1 + max size 1 := Nat.succ_mul _ _
    have hlast := Nat.mul_le_mul_right (max size 1) (by omega : k + 1 ≤ chunkCount size total)
    rw [cutFrom, Nat.min_eq_right hbegun.le, if_pos hbegun, if_pos (by omega), ← hstep,
      ih (by omega) (by omega), List.range'_succ, List.map_cons]
    rfl

/-- Where the end of some chunk is no 64-bit number, cutting does not go through. -/
theorem cutFrom_mul_eq_error {size total k : Nat}
    (hend : wordBound ≤ chunkCount size total * max size 1) (hk : k < chunkCount size total) :
    cutFrom size total (k * max size 1) = .error (.misuse .excessiveSum) := by
  induction hleft : chunkCount size total - (k + 1) generalizing k with
  | zero =>
    -- the last chunk is the one that does not fit
    have hlast : k + 1 = chunkCount size total := by omega
    rw [← hlast, Nat.succ_mul] at hend
    rw [cutFrom, if_pos (lt_chunkCount_iff.mp hk), if_neg (by omega)]
  | succ left ih =>
    have hnext : (k + 1) * max size 1 < total := lt_chunkCount_iff.mp (by omega)
    have hstep : (k + 1) * max size 1 = k * max size 1 + max size 1 := Nat.succ_mul _ _
    rw [cutFrom, if_pos (lt_chunkCount_iff.mp hk)]
    split_ifs
    · rw [← hstep, Nat.min_eq_right hnext.le, ih (by omega) (by omega)]
      rfl
    · rfl

/-- Cutting gives the chunks, provided that the last one fits. -/
theorem cutFrom_zero (size total : Nat) :
    cutFrom size total 0 =
      if chunkCount size total * max size 1 < wordBound then .ok (chunks size total)
      else .error (.misuse .excessiveSum) := by
  split_ifs with hend
  · have hcut := cutFrom_mul hend (Nat.zero_le _)
    rw [Nat.zero_mul, Nat.min_zero, Nat.sub_zero, ← List.range_eq_range'] at hcut
    exact hcut
  · have hpos : 0 < chunkCount size total := by
      by_contra hzero
      rw [Nat.eq_zero_of_not_pos hzero, Nat.zero_mul] at hend
      exact hend (by decide)
    have hcut := cutFrom_mul_eq_error (by omega) hpos
    rwa [Nat.zero_mul] at hcut

/-- Counting the substitutions of a clause for chunks is counting and cutting. -/
theorem ResolvedClause.substitutionsBy_eq_cut (chunkSize : Nat) (c : ResolvedClause) :
    c.substitutionsBy chunkSize = (do
      let total ← c.substitutions.mapError Abort.ofGrounding
      let _ ← cutFrom chunkSize total 0
      .ok total) := by
  unfold substitutionsBy
  refine bind_congr fun total => ?_
  rw [cutFrom_zero]
  split <;> rfl

/-! ### Counting -/

namespace MixedRadix

/-- The numbers below the count are the numerals. -/
theorem bijOn_digits (rs : List Nat) :
    Set.BijOn (digits rs) {n | n < count rs} {ds | List.Forall₂ (· < ·) ds rs} := by
  have hnumeral : ∀ ds, List.Forall₂ (· < ·) ds rs ↔ IsNumeral rs ds := by
    intro ds
    induction rs generalizing ds with
    | nil => cases ds <;> simp [IsNumeral]
    | cons r rs ih => cases ds <;> simp [IsNumeral, ih]
  refine ⟨?_, ?_, ?_⟩
  · intro n hn
    have hpos : 0 < count rs := Nat.lt_of_le_of_lt (Nat.zero_le n) hn
    exact (hnumeral _).mpr (isNumeral_digits (count_pos_iff.mp hpos) n)
  · intro m hm n hn heq
    have hvalue := congrArg (value rs) heq
    rwa [value_digits hm, value_digits hn] at hvalue
  · intro ds hds
    have hds := (hnumeral ds).mp hds
    exact ⟨value rs ds, value_lt_count hds, digits_value hds⟩

end MixedRadix

/-! ### Every substitution once -/

/-- Counting fails only for clauses with an empty domain, as long as the number of substitutions is
a 64-bit number. -/
theorem ResolvedClause.substitutions_cases {c : ResolvedClause}
    (h : MixedRadix.count c.radices < wordBound) :
    c.substitutions = .ok (MixedRadix.count c.radices) ∨
      MixedRadix.count c.radices = 0 ∧
        c.substitutions = .error (.malformed c.index .tooManySubstitutions) := by
  rw [substitutions]
  cases hcount : count64? 1 c.radices with
  | some n => exact .inl (by rw [count64?_eq_some hcount, Nat.one_mul])
  | none =>
    refine .inr ⟨?_, rfl⟩
    by_contra hne
    have hpos := MixedRadix.count_pos_iff.mp (Nat.pos_of_ne_zero hne)
    rw [count64?_eq hpos (by decide), Nat.one_mul, if_pos h] at hcount
    cases hcount

theorem ResolvedClause.radices_pos_iff {c : ResolvedClause} :
    (∀ r ∈ c.radices, 0 < r) ↔ ∀ slot ∈ c.slots, 0 < slot.domain.size := by
  simp only [radices, List.mem_map, forall_exists_index, and_imp, forall_apply_eq_imp_iff₂]

/-- Where there is a chunk, there is a substitution, and no domain is empty. -/
theorem ResolvedClause.pos_of_mem_chunks {c : ResolvedClause} {size : Nat} {k : Chunk}
    (hk : k ∈ chunks size (MixedRadix.count c.radices)) :
    ∀ slot ∈ c.slots, 0 < slot.domain.size := by
  have hpos : 0 < MixedRadix.count c.radices := by
    by_contra hzero
    rw [Nat.eq_zero_of_not_pos hzero, chunks_zero] at hk
    cases hk
  exact radices_pos_iff.mp (MixedRadix.count_pos_iff.mp hpos)

theorem stop_le_of_mem_chunks {size total : Nat} {k : Chunk} (hk : k ∈ chunks size total) :
    k.stop ≤ k.start + max size 1 := by
  obtain ⟨i, -, rfl⟩ := List.mem_map.mp hk
  exact Nat.le_trans (Nat.min_le_right _ _) (Nat.le_of_eq (Nat.succ_mul _ _))

/-- Chunks visit every substitution of a clause once, provided that the number of substitutions and
the size of a chunk are a 64-bit number together.

The substitutions can be counted, unless there are none, and the chunks can be cut.  They fill the
numbers below the total in order, are no longer than they should be, and there are none if a domain
is empty.  Counting up inside a chunk gives the numerals of its numbers, which the run takes in one
after the other.  Numbers below the total stand for the tuples of constant numbers that are in
range, each for another one.  A clause without variables has one chunk with one substitution. -/
theorem chunks_visit_once {c : ResolvedClause} {chunkSize total : Nat}
    (htotal : MixedRadix.count c.radices = total)
    (hfits : total + max chunkSize 1 < wordBound) :
    (c.substitutionsBy chunkSize = .ok total ∨ total = 0 ∧ c.substitutionsBy chunkSize =
      .error (.ofGrounding (.malformed c.index .tooManySubstitutions))) ∧
    cutFrom chunkSize total 0 = .ok (chunks chunkSize total) ∧
    Tiles (chunks chunkSize total) 0 total ∧
    (∀ k ∈ chunks chunkSize total,
      k.stop ≤ k.start + max chunkSize 1 ∧
      (∀ slot ∈ c.slots, 0 < slot.domain.size) ∧
      List.iterate (MixedRadix.next c.radices) (MixedRadix.digits c.radices k.start)
          (k.stop - k.start) =
        (List.range' k.start (k.stop - k.start)).map (MixedRadix.digits c.radices) ∧
      ∀ run : GroundingRun, run.recordChunk c k =
        ((List.range' k.start (k.stop - k.start)).map (MixedRadix.digits c.radices)).foldlM
          (fun run b => run.record c b) run) ∧
    Set.BijOn (MixedRadix.digits c.radices) {n | n < total}
      {b | List.Forall₂ (fun i slot => i < slot.domain.size) b c.slots} ∧
    ((∃ slot ∈ c.slots, slot.domain.size = 0) → chunks chunkSize total = []) ∧
    (c.slots = [] → chunks chunkSize total = [⟨0, 1⟩] ∧
      ∀ run : GroundingRun, run.recordClause chunkSize c total = run.record c []) ∧
    ∀ run : GroundingRun, run.recordClause chunkSize c total =
      ((List.range total).map (MixedRadix.digits c.radices)).foldlM
        (fun run b => run.record c b) run := by
  subst htotal
  have hend := chunkCount_mul_lt_of_add_le hfits.le
  have hcut : cutFrom chunkSize (MixedRadix.count c.radices) 0 =
      .ok (chunks chunkSize (MixedRadix.count c.radices)) := by
    rw [cutFrom_zero, if_pos hend]
  have htiles := tiles_of_cutFrom (Nat.zero_le _) hcut
  have hclause := fun run : GroundingRun => run.recordClause_eq_foldlM chunkSize c
  refine ⟨?_, hcut, htiles, ?_, ?_, ?_, ?_, hclause⟩
  · rw [c.substitutionsBy_eq_cut]
    rcases c.substitutions_cases (by omega) with hcounted | ⟨hzero, hfault⟩
    · left
      simp only [hcounted, hcut, Except.mapError, bind, Except.bind]
    · right
      rw [hfault]
      exact ⟨hzero, rfl⟩
  · intro k hk
    have hslots := ResolvedClause.pos_of_mem_chunks hk
    have hradices := ResolvedClause.radices_pos_iff.mpr hslots
    refine ⟨stop_le_of_mem_chunks hk, hslots, Pool.iterate_next_digits hradices _ _,
      fun run => ?_⟩
    exact GroundingRun.recordFrom_digits hradices _ _ run
  · have hbij := MixedRadix.bijOn_digits c.radices
    simp only [ResolvedClause.radices, List.forall₂_map_right_iff] at hbij
    exact hbij
  · rintro ⟨slot, hslot, hempty⟩
    rw [List.eq_nil_iff_forall_not_mem]
    intro k hk
    have hpos := ResolvedClause.pos_of_mem_chunks hk slot hslot
    omega
  · intro hnone
    have hradices : c.radices = [] := by rw [ResolvedClause.radices, hnone, List.map_nil]
    have hone : chunkCount chunkSize 1 = 1 := by
      rw [chunkCount, Nat.add_sub_cancel_left, Nat.div_self (by omega)]
    refine ⟨?_, fun run => ?_⟩
    · rw [hradices, MixedRadix.count, chunks, hone]
      simp
    · rw [hclause run, hradices]
      exact bind_pure _

/-- Eighteen settings of a day and a digit, in chunks of seven. -/
theorem chunks_visit_once_settings :
    let c : ResolvedClause :=
      ⟨0, false, [⟨"day", Weather.days⟩, ⟨"digit", Network.Lock.digit⟩], [], []⟩
    MixedRadix.count c.radices = 18 ∧ 18 + max 7 1 < wordBound ∧
      cutFrom 7 18 0 = .ok [⟨0, 7⟩, ⟨7, 14⟩, ⟨14, 18⟩] ∧ Tiles [⟨0, 7⟩, ⟨7, 14⟩, ⟨14, 18⟩] 0 18 ∧
      List.iterate (MixedRadix.next c.radices) [0, 7] 4 = [[0, 7], [1, 7], [0, 8], [1, 8]] := by
  intro c
  have htotal : MixedRadix.count c.radices = 18 := rfl
  have hfits : 18 + max 7 1 < wordBound := by decide
  have hchunks : chunks 7 18 = [⟨0, 7⟩, ⟨7, 14⟩, ⟨14, 18⟩] := rfl
  obtain ⟨-, hcut, htiles, hsteps, -⟩ := chunks_visit_once htotal hfits
  rw [hchunks] at hcut htiles hsteps
  exact ⟨htotal, hfits, hcut, htiles, (hsteps ⟨14, 18⟩ (by simp)).2.2.1⟩

end LogicNetwork
