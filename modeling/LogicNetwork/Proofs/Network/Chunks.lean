import LogicNetwork.Proofs.Network.Grounded

/-!
# Sizes of chunks

The size of the chunks into which the substitutions of clauses are cut does not show in what
grounding gives, as long as the ends of all chunks are 64-bit numbers (`Clause.FitsChunks`,
`Network.ground_eq_of_fitsChunks`).  Chunks that are small against `2 ^ 64` fit
(`chunkCount_mul_lt_of_add_le`).

Where not all chunks fit, grounding stops before its first substitution
(`Network.ground_eq_excessiveSum_iff`).
-/

namespace LogicNetwork

variable {α : Type}

/-! ### Ends of chunks -/

/-- Whether the ends of the chunks of a clause are 64-bit numbers, if its substitutions can be
counted. -/
def Clause.FitsChunks (e : Evidence) (b : Builtins) (chunkSize : Nat) (c : Clause α) : Prop :=
  ∀ r ∈ (c.resolve e b).toOption, ∀ total ∈ r.substitutions.toOption,
    chunkCount chunkSize total * max chunkSize 1 < wordBound

instance (e : Evidence) (b : Builtins) (chunkSize : Nat) (c : Clause α) :
    Decidable (c.FitsChunks e b chunkSize) :=
  inferInstanceAs (Decidable (∀ r ∈ (c.resolve e b).toOption,
    ∀ total ∈ r.substitutions.toOption, chunkCount chunkSize total * max chunkSize 1 < wordBound))

theorem chunkCount_mul_lt_of_add_le {chunkSize total : Nat}
    (h : total + max chunkSize 1 ≤ wordBound) :
    chunkCount chunkSize total * max chunkSize 1 < wordBound := by
  have hdiv := Nat.div_mul_le_self (total + max chunkSize 1 - 1) (max chunkSize 1)
  rw [chunkCount]
  omega

theorem ResolvedClause.substitutionsBy_of_counted {chunkSize total : Nat} {c : ResolvedClause}
    (h : c.substitutions = .ok total) :
    c.substitutionsBy chunkSize =
      if chunkCount chunkSize total * max chunkSize 1 < wordBound then .ok total
      else .error (.misuse .excessiveSum) := by
  rw [substitutionsBy, h]
  rfl

theorem ResolvedClause.isOk_substitutions {chunkSize total : Nat} {c : ResolvedClause}
    (h : c.substitutionsBy chunkSize = .ok total) : c.substitutions.isOk = true := by
  obtain ⟨m, hm, -⟩ := Except.bind_eq_ok_iff.mp h
  rw [Except.mapError_eq_ok_iff.mp hm]
  rfl

/-- Where its chunks fit, a clause has as many substitutions as without chunks. -/
theorem Clause.FitsChunks.substitutionsBy_eq {e : Evidence} {b : Builtins} {chunkSize : Nat}
    {c : Clause α} {r : ResolvedClause} (hfits : c.FitsChunks e b chunkSize)
    (hr : c.resolve e b = .ok r) :
    r.substitutionsBy chunkSize = r.substitutions.mapError Abort.ofGrounding := by
  cases htotal : r.substitutions with
  | error fault =>
    rw [ResolvedClause.substitutionsBy, htotal]
    rfl
  | ok total =>
    have hend := hfits r (Except.toOption_eq_some_iff.mpr hr) total
      (Except.toOption_eq_some_iff.mpr htotal)
    rw [ResolvedClause.substitutionsBy_of_counted htotal, if_pos hend]
    rfl

/-- Where they do not fit, the clause cannot be grounded. -/
theorem Clause.exists_of_not_fitsChunks {e : Evidence} {b : Builtins} {chunkSize : Nat}
    {c : Clause α} (hfits : ¬ c.FitsChunks e b chunkSize) :
    ∃ r, c.resolve e b = .ok r ∧
      r.substitutionsBy chunkSize = .error (.misuse .excessiveSum) := by
  unfold FitsChunks at hfits
  push Not at hfits
  obtain ⟨r, hr, total, htotal, hend⟩ := hfits
  refine ⟨r, Except.toOption_eq_some_iff.mp hr, ?_⟩
  rw [ResolvedClause.substitutionsBy_of_counted (Except.toOption_eq_some_iff.mp htotal),
    if_neg (by omega)]

/-! ### Chunks that fit -/

section Chunks

variable [WeightArithmetic α] {b : Builtins} {e : Evidence} {query : List Signature}
  {clauses : List (Clause α)} {chunkSize chunkSize' : Nat} {resolved : List ResolvedClause}

/-- Where their chunks fit, clauses that can be counted have as many substitutions as numerals. -/
theorem IsResolution.mapM_substitutionsBy (h : IsResolution b e clauses resolved)
    (hfits : ∀ c ∈ clauses, c.FitsChunks e b chunkSize)
    (hcounted : ∀ r ∈ resolved, r.substitutions.isOk = true) :
    resolved.mapM (ResolvedClause.substitutionsBy chunkSize) =
      .ok (resolved.map fun r => MixedRadix.count r.radices) := by
  apply Except.mapM_eq_ok_map
  intro r hr
  obtain ⟨c, hc, hresolve⟩ := h.exists_clause hr
  obtain ⟨total, htotal⟩ := Except.isOk_iff.mp (hcounted r hr)
  have hby : r.substitutionsBy chunkSize = .ok total := by
    rw [(hfits c hc).substitutionsBy_eq hresolve, htotal]
    rfl
  rw [hby, r.substitutionsBy_eq_ok hby]

namespace Network

/-- The size of chunks that fit does not show, not even in faults. -/
theorem ground_eq_of_fitsChunks (hfits : ∀ c ∈ clauses, c.FitsChunks e b chunkSize)
    (hfits' : ∀ c ∈ clauses, c.FitsChunks e b chunkSize') :
    ground chunkSize' b e clauses query = ground chunkSize b e clauses query := by
  unfold ground
  apply Except.bind_congr_of_ok
  intro resolved hresolved
  have hresolution := IsResolution.of_resolveAll (Except.mapError_eq_ok_iff.mp hresolved)
  -- the size of the chunks is only seen in counting, and there it does not matter
  have hcount : resolved.mapM (ResolvedClause.substitutionsBy chunkSize') =
      resolved.mapM (ResolvedClause.substitutionsBy chunkSize) := by
    apply Except.mapM_congr
    intro r hr
    obtain ⟨c, hc, hresolve⟩ := hresolution.exists_clause hr
    rw [(hfits c hc).substitutionsBy_eq hresolve, (hfits' c hc).substitutionsBy_eq hresolve]
  rw [hcount]
  apply Except.bind_congr_of_ok
  intro totals htotals
  rw [totals_eq htotals, groundAll_eq, groundAll_eq]

/-! ### Chunks that do not fit -/

/-- Grounding stops at the end of a chunk just if not all ends are 64-bit numbers, even where a
smaller or a larger chunk would show a violated hard clause. -/
theorem ground_eq_excessiveSum_iff
    (hresolved : resolveAll b e clauses query = .ok resolved)
    (hcounted : ∀ r ∈ resolved, r.substitutions.isOk = true) :
    ground chunkSize b e clauses query = .error (.misuse .excessiveSum) ↔
      ∃ c ∈ clauses, ¬ c.FitsChunks e b chunkSize := by
  have hresolution := IsResolution.of_resolveAll hresolved
  have hground : ground chunkSize b e clauses query =
      resolved.mapM (ResolvedClause.substitutionsBy chunkSize) >>= fun totals =>
        (groundAll chunkSize (resolved.zip totals) >>= ofRun e clauses query).mapError
          Abort.ofGrounding := by
    rw [ground, hresolved]
    rfl
  rw [hground, Except.bind_eq_error_iff]
  constructor
  · rintro (h | ⟨totals, -, h⟩)
    · obtain ⟨r, hr, hby⟩ := Except.exists_of_mapM_eq_error h
      obtain ⟨c, hc, hresolve⟩ := hresolution.exists_clause hr
      obtain ⟨total, htotal⟩ := Except.isOk_iff.mp (hcounted r hr)
      refine ⟨c, hc, ?_⟩
      intro hfits
      rw [hfits.substitutionsBy_eq hresolve, htotal] at hby
      cases hby
    · obtain ⟨cause, -, heq⟩ := Except.mapError_eq_error_iff.mp h
      cases heq
  · rintro ⟨c, hc, hfits⟩
    obtain ⟨r, hresolve, hby⟩ := c.exists_of_not_fitsChunks hfits
    obtain ⟨r', hr, hresolve'⟩ := hresolution.exists_resolved hc
    cases hresolve.symm.trans hresolve'
    left
    -- the first fault of counting is the one of some clause, and there is no other kind
    cases h : resolved.mapM (ResolvedClause.substitutionsBy chunkSize) with
    | error fault =>
      obtain ⟨a, ha, hfault⟩ := Except.exists_of_mapM_eq_error h
      obtain ⟨total, htotal⟩ := Except.isOk_iff.mp (hcounted a ha)
      rw [ResolvedClause.substitutionsBy_of_counted htotal] at hfault
      split_ifs at hfault
      cases hfault
      rfl
    | ok totals =>
      obtain ⟨total, -, htotal⟩ := Except.exists_mem_of_mapM_eq_ok h hr
      rw [hby] at htotal
      cases htotal

end Network

end Chunks

end LogicNetwork
