import LogicNetwork.Network.Ground
import LogicNetwork.Proofs.Fallible

/-!
# Faults that are contradictions

Two of the faults of grounding say that no world meets all hard clauses; the others are about the
clauses or the query as such.  Checking and resolving clauses never finds a contradiction
(`isContradiction_resolveAll`), nor does counting their substitutions
(`ResolvedClause.isContradiction_substitutionsBy`).  So only working through substitutions and
merging what is left of them do.
-/

namespace LogicNetwork

/-- Whether a fault says that the hard clauses contradict the evidence or each other. -/
def GroundingError.isContradiction : GroundingError → Bool
  | hardClauseViolated _ _ => true
  | conflictingHardClauses _ _ => true
  | _ => false

/-! ### Typing -/

theorem Typing.eq_conflict_of_assign {types : Typing} {clause : Nat} {name domain : String}
    {fault : GroundingError} (h : types.assign clause name domain = .error fault) :
    ∃ first, fault = .conflictingDomains clause name first domain := by
  unfold Typing.assign at h
  split at h
  · rename_i first hfirst
    split at h
    · cases h
    · cases h
      exact ⟨first, rfl⟩
  · cases h

namespace Term

mutual

/-- Typing reports conflicting domains and nothing else. -/
theorem eq_conflict_of_infer {s : Schema} {clause : Nat} {fault : GroundingError} :
    ∀ (t : Term) (position : Option String) (types : Typing),
      infer s clause t position types = .error fault →
        ∃ name first second, fault = .conflictingDomains clause name first second
  | const _, _, _, h => by
    rw [infer] at h
    cases h
  | var v, some domain, types, h => by
    rw [infer] at h
    obtain ⟨first, hfault⟩ := Typing.eq_conflict_of_assign h
    exact ⟨v.name, first, domain, hfault⟩
  | var _, none, _, h => by
    rw [infer] at h
    cases h
  | app f as, position, types, h => by
    rw [infer] at h
    exact eq_conflict_of_inferAll as _ types h

theorem eq_conflict_of_inferAll {s : Schema} {clause : Nat} {fault : GroundingError} :
    ∀ (as : List Term) (positions : List (Option String)) (types : Typing),
      inferAll s clause as positions types = .error fault →
        ∃ name first second, fault = .conflictingDomains clause name first second
  | [], _, _, h => by
    rw [inferAll] at h
    · cases h
    · exact fun _ _ _ _ heq => nomatch heq
  | _ :: _, [], _, h => by
    rw [inferAll] at h
    · cases h
    · exact fun _ _ _ _ _ heq => nomatch heq
  | a :: as, p :: ps, types, h => by
    rw [inferAll, Except.bind_eq_error_iff] at h
    rcases h with h | ⟨next, -, h⟩
    · exact eq_conflict_of_infer a p types h
    · exact eq_conflict_of_inferAll as ps next h

end

end Term

namespace Clause

variable {α : Type}

theorem eq_conflict_of_typing {c : Clause α} {l : Layout} {fault : GroundingError}
    (h : c.typing l = .error fault) :
    ∃ name first second, fault = .conflictingDomains c.index name first second := by
  rw [typing, Except.bind_eq_error_iff] at h
  rcases h with h | ⟨types, -, h⟩
  · obtain ⟨literal, -, types, hstep⟩ := Except.exists_of_foldlM_eq_error h
    exact Term.eq_conflict_of_inferAll _ _ _ hstep
  · obtain ⟨r, -, types, hstep⟩ := Except.exists_of_foldlM_eq_error h
    rcases Except.bind_eq_error_iff.mp hstep with hleft | ⟨next, -, hright⟩
    · exact Term.eq_conflict_of_infer _ _ _ hleft
    · exact Term.eq_conflict_of_infer _ _ _ hright

theorem isContradiction_slots {c : Clause α} {l : Layout} {fault : GroundingError}
    (h : c.slots l = .error fault) : fault.isContradiction = false := by
  rw [slots, Except.bind_eq_error_iff] at h
  rcases h with h | ⟨types, -, h⟩
  · obtain ⟨name, first, second, rfl⟩ := eq_conflict_of_typing h
    rfl
  · obtain ⟨v, -, hslot⟩ := Except.exists_of_mapM_eq_error h
    unfold slot at hslot
    split at hslot
    · cases hslot
      rfl
    · split at hslot <;> cases hslot
      rfl

/-! ### Resolving -/

theorem isContradiction_resolve {e : Evidence} {b : Builtins} {c : Clause α}
    {fault : GroundingError} (h : c.resolve e b = .error fault) :
    fault.isContradiction = false := by
  rw [resolve, Except.bind_eq_error_iff] at h
  rcases h with h | ⟨slots, -, h⟩
  · exact isContradiction_slots h
  rcases Except.bind_eq_error_iff.mp h with h | ⟨literals, -, h⟩
  · obtain ⟨cause, -, rfl⟩ := Except.mapError_eq_error_iff.mp h
    rfl
  rcases Except.bind_eq_error_iff.mp h with h | ⟨restrictions, -, h⟩
  · obtain ⟨cause, -, rfl⟩ := Except.mapError_eq_error_iff.mp h
    rfl
  · cases h

end Clause

/-! ### Checking -/

variable {α : Type} [WeightArithmetic α]

theorem isContradiction_checkClauses {seen : List Nat} {clauses : List (Clause α)}
    {fault : GroundingError} (h : checkClauses seen clauses = .error fault) :
    fault.isContradiction = false := by
  induction clauses generalizing seen with
  | nil => cases h
  | cons c clauses ih =>
    rw [checkClauses] at h
    split at h
    · cases h
      rfl
    · split at h
      · cases h
        rfl
      · exact ih h

theorem isContradiction_checkQuery {l : Layout} {query : List Signature} {fault : GroundingError}
    (h : checkQuery l query = .error fault) : fault.isContradiction = false := by
  unfold checkQuery at h
  induction query with
  | nil => cases h
  | cons s query ih =>
    rcases Except.bind_eq_error_iff.mp h with h | ⟨_, -, h⟩
    · obtain ⟨cause, -, rfl⟩ := Except.mapError_eq_error_iff.mp h
      rfl
    · exact ih h

/-- Checking and resolving find no contradiction. -/
theorem isContradiction_resolveAll {b : Builtins} {e : Evidence} {clauses : List (Clause α)}
    {query : List Signature} {fault : GroundingError}
    (h : resolveAll b e clauses query = .error fault) : fault.isContradiction = false := by
  rw [resolveAll, Except.bind_eq_error_iff] at h
  rcases h with h | ⟨_, -, h⟩
  · exact isContradiction_checkClauses h
  rcases Except.bind_eq_error_iff.mp h with h | ⟨_, -, h⟩
  · exact isContradiction_checkQuery h
  · obtain ⟨c, -, hc⟩ := Except.exists_of_mapM_eq_error h
    exact Clause.isContradiction_resolve hc

/-- Counting substitutions finds no contradiction. -/
theorem ResolvedClause.isContradiction_substitutionsBy {chunkSize : Nat} {c : ResolvedClause}
    {fault : GroundingError} (h : c.substitutionsBy chunkSize = .error (.ofGrounding fault)) :
    fault.isContradiction = false := by
  rw [substitutionsBy, Except.bind_eq_error_iff] at h
  rcases h with h | ⟨total, -, h⟩
  · obtain ⟨cause, hcause, heq⟩ := Except.mapError_eq_error_iff.mp h
    cases heq
    rw [substitutions] at hcause
    split at hcause <;> cases hcause
    rfl
  · split at h <;> cases h

end LogicNetwork
