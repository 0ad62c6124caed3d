import LogicNetwork.Grounding.Enumeration
import Mathlib.Algebra.BigOperators.Group.List.Basic

/-!
# The substitutions of a clause

`MixedRadix.numerals` lists the tuples of valid constant numbers in the order of enumeration,
each of them once (`mem_numerals`, `nodup_numerals`).  Cutting the substitutions into chunks and
counting up inside each chunk visits exactly this list, whatever the size of the chunks
(`GroundingRun.recordClause_eq_foldlM`), so that a run over clauses is one left fold over
`substitutionsOf` (`groundChunks_eq_foldlM`).
-/

namespace LogicNetwork

namespace MixedRadix

/-- All numerals over the radices, ascending. -/
def numerals (rs : List Nat) : List (List Nat) :=
  (List.range (count rs)).map (digits rs)

theorem mem_numerals {rs ds : List Nat} : ds ∈ numerals rs ↔ IsNumeral rs ds := by
  rw [numerals, List.mem_map]
  constructor
  · rintro ⟨n, hn, rfl⟩
    have hpos : 0 < count rs := Nat.lt_of_le_of_lt (Nat.zero_le n) (List.mem_range.mp hn)
    exact isNumeral_digits (count_pos_iff.mp hpos) n
  · intro h
    exact ⟨value rs ds, List.mem_range.mpr (value_lt_count h), digits_value h⟩

theorem nodup_numerals (rs : List Nat) : (numerals rs).Nodup := by
  rw [numerals, List.nodup_iff_pairwise_ne, List.pairwise_map]
  refine List.Pairwise.imp_of_mem ?_ List.nodup_range
  intro m n hm hn hne heq
  have hvalue := congrArg (value rs) heq
  rw [value_digits (List.mem_range.mp hm), value_digits (List.mem_range.mp hn)] at hvalue
  exact hne hvalue

theorem length_numerals (rs : List Nat) : (numerals rs).length = count rs := by
  rw [numerals, List.length_map, List.length_range]

theorem count_eq_prod (rs : List Nat) : count rs = rs.prod := by
  induction rs with
  | nil => rfl
  | cons r rs ih => rw [count, ih, List.prod_cons]

end MixedRadix

/-! ### Counting -/

theorem count64?_eq_some {m n : Nat} {rs : List Nat} (h : count64? m rs = some n) :
    n = m * MixedRadix.count rs := by
  induction rs generalizing m with
  | nil =>
    rw [count64?, Option.some.injEq] at h
    rw [MixedRadix.count, Nat.mul_one, h]
  | cons r rs ih =>
    rw [count64?] at h
    split at h
    · rw [ih h, MixedRadix.count, Nat.mul_assoc]
    · cases h

/-- Without a zero among the factors, the partial products are words if the product is. -/
theorem count64?_eq {m : Nat} {rs : List Nat} (hpos : ∀ r ∈ rs, 0 < r) (hm : m < wordBound) :
    count64? m rs =
      if m * MixedRadix.count rs < wordBound then some (m * MixedRadix.count rs) else none := by
  induction rs generalizing m with
  | nil =>
    rw [count64?, MixedRadix.count, Nat.mul_one, if_pos hm]
  | cons r rs ih =>
    rw [List.forall_mem_cons] at hpos
    rw [count64?, MixedRadix.count, ← Nat.mul_assoc]
    split_ifs with hfirst hall hall
    · rw [ih hpos.2 hfirst, if_pos hall]
    · rw [ih hpos.2 hfirst, if_neg hall]
    · -- the product is no smaller than the first part of it
      have hle := Nat.le_mul_of_pos_right (m * r) (MixedRadix.count_pos_iff.mpr hpos.2)
      exact absurd (Nat.lt_of_le_of_lt hle hall) hfirst
    · rfl

/-- A clause whose substitutions have been counted has as many as there are numerals. -/
theorem ResolvedClause.substitutionsBy_eq_ok {chunkSize total : Nat} {c : ResolvedClause}
    (h : c.substitutionsBy chunkSize = .ok total) : total = MixedRadix.count c.radices := by
  rw [substitutionsBy, substitutions] at h
  cases hc : count64? 1 c.radices with
  | none =>
    rw [hc] at h
    cases h
  | some n =>
    rw [hc] at h
    change (if chunkCount chunkSize n * max chunkSize 1 < wordBound then Except.ok n
      else Except.error (Abort.misuse .excessiveSum)) = Except.ok total at h
    split at h
    · cases h
      rw [count64?_eq_some hc, Nat.one_mul]
    · cases h

/-! ### Chunks -/

/-- Ranges of one length, cut off at a total, fill the numbers up to the last end. -/
theorem flatMap_range'_cut (size total m : Nat) :
    ((List.range m).flatMap fun k =>
      List.range' (k * size) (min total ((k + 1) * size) - k * size)) =
      List.range (min total (m * size)) := by
  induction m with
  | zero => simp
  | succ m ih =>
    rw [List.range_succ, List.flatMap_append, ih, List.flatMap_singleton, List.range_eq_range',
      List.range_eq_range']
    have hstep : (m + 1) * size = m * size + size := Nat.succ_mul m size
    by_cases hfull : m * size ≤ total
    · -- the next range begins where the ranges so far end
      have hend : min total ((m + 1) * size) =
          m * size + (min total ((m + 1) * size) - m * size) := by omega
      rw [Nat.min_eq_right hfull, hend, Nat.add_sub_cancel_left, ← List.range'_append_1,
        Nat.zero_add]
    · -- the total is reached, and the next range is empty
      have hleft : min total (m * size) = total := by omega
      have hnext : min total ((m + 1) * size) = total := by omega
      have hnone : total - m * size = 0 := by omega
      rw [hleft, hnext, hnone, List.range'_zero, List.append_nil]

/-- The chunks cover the substitutions below the total, in order and once. -/
theorem flatMap_chunks (size total : Nat) :
    ((chunks size total).flatMap fun k => List.range' k.start (k.stop - k.start)) =
      List.range total := by
  have hpos : 0 < max size 1 := by omega
  have hcover : total ≤ chunkCount size total * max size 1 := by
    have hsplit := Nat.div_add_mod (total + max size 1 - 1) (max size 1)
    have hsmall := Nat.mod_lt (total + max size 1 - 1) hpos
    rw [Nat.mul_comm] at hsplit
    rw [chunkCount]
    omega
  rw [chunks, List.flatMap_map]
  exact (flatMap_range'_cut _ _ _).trans (by rw [Nat.min_eq_left hcover])

theorem chunks_zero (size : Nat) : chunks size 0 = [] := by
  have hcount : chunkCount size 0 = 0 := Nat.div_eq_of_lt (by omega)
  rw [chunks, hcount, List.range_zero, List.map_nil]

namespace GroundingRun

/-- Counting up from a numeral visits the numerals that follow it. -/
theorem recordFrom_digits {c : ResolvedClause} (hpos : ∀ r ∈ c.radices, 0 < r)
    (n start : Nat) (run : GroundingRun) :
    recordFrom c n (MixedRadix.digits c.radices start) run =
      ((List.range' start n).map (MixedRadix.digits c.radices)).foldlM
        (fun run b => run.record c b) run := by
  induction n generalizing start run with
  | zero => rfl
  | succ n ih =>
    rw [recordFrom, List.range'_succ, List.map_cons, List.foldlM_cons]
    refine bind_congr fun next => ?_
    rw [MixedRadix.next_digits hpos, ih]

/-- Working through a clause in chunks is working through its numerals. -/
theorem recordClause_eq_foldlM (chunkSize : Nat) (run : GroundingRun) (c : ResolvedClause) :
    run.recordClause chunkSize c (MixedRadix.count c.radices) =
      (MixedRadix.numerals c.radices).foldlM (fun run b => run.record c b) run := by
  rcases Nat.eq_zero_or_pos (MixedRadix.count c.radices) with hzero | hpos
  · -- an empty domain leaves no chunk, so that no digits are taken
    rw [recordClause, MixedRadix.numerals, hzero, chunks_zero]
    rfl
  · have hradices := MixedRadix.count_pos_iff.mp hpos
    have hchunk : (fun (run : GroundingRun) (chunk : Chunk) => run.recordChunk c chunk) =
        fun run chunk => ((List.range' chunk.start (chunk.stop - chunk.start)).map
          (MixedRadix.digits c.radices)).foldlM (fun run b => run.record c b) run := by
      funext run chunk
      exact recordFrom_digits hradices _ _ run
    rw [recordClause, hchunk, MixedRadix.numerals, ← flatMap_chunks chunkSize, List.map_flatMap]
    generalize chunks chunkSize (MixedRadix.count c.radices) = ks
    induction ks generalizing run with
    | nil => rfl
    | cons k ks ih =>
      rw [List.foldlM_cons, List.flatMap_cons, List.foldlM_append]
      exact bind_congr fun next => ih next

end GroundingRun

/-! ### Clauses -/

/-- The substitutions of clauses, in the order in which they are worked through. -/
def substitutionsOf (clauses : List ResolvedClause) : List (ResolvedClause × List Nat) :=
  clauses.flatMap fun c => (MixedRadix.numerals c.radices).map (Prod.mk c)

theorem mem_substitutionsOf {clauses : List ResolvedClause} {s : ResolvedClause × List Nat} :
    s ∈ substitutionsOf clauses ↔
      s.1 ∈ clauses ∧ MixedRadix.IsNumeral s.1.radices s.2 := by
  rw [substitutionsOf, List.mem_flatMap]
  constructor
  · rintro ⟨c, hc, hs⟩
    obtain ⟨b, hb, rfl⟩ := List.mem_map.mp hs
    exact ⟨hc, MixedRadix.mem_numerals.mp hb⟩
  · rintro ⟨hc, hb⟩
    exact ⟨s.1, hc, List.mem_map.mpr ⟨s.2, MixedRadix.mem_numerals.mpr hb, rfl⟩⟩

/-- Working through clauses in chunks is working through their substitutions. -/
theorem groundChunks_eq_foldlM (chunkSize : Nat) (clauses : List ResolvedClause)
    (run : GroundingRun) :
    (clauses.zip (clauses.map fun c => MixedRadix.count c.radices)).foldlM
        (fun run (c, total) => run.recordClause chunkSize c total) run =
      (substitutionsOf clauses).foldlM (fun run s => run.record s.1 s.2) run := by
  induction clauses generalizing run with
  | nil => rfl
  | cons c clauses ih =>
    rw [substitutionsOf, List.flatMap_cons, List.foldlM_append, List.foldlM_map, List.map_cons,
      List.zip_cons_cons, List.foldlM_cons]
    simp only [GroundingRun.recordClause_eq_foldlM]
    exact bind_congr fun next => ih next

end LogicNetwork
