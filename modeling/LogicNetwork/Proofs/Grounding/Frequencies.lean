import LogicNetwork.Proofs.Network.Schedules

/-!
# Frequencies of many contributions

A tally counts in 32-bit words, and the frequency is the difference of its words as a signed word.
So, however many contributions there are, the frequency agrees with the number of positive ones
less the number of negative ones up to a multiple of `2 ^ 32`, and it is this number just if it is
a signed word (`TallyTable.frequency_exact_iff`).  What the two words did on the way does not
matter: each of them may pass `2 ^ 32` as long as the difference is small.

A clause may have as many substitutions as a 64-bit word can count, though.  If `2 ^ 31` of them
leave the same ground clause, its frequency is negative: `TallyTable.frequency_wraps_lock`.

All this is about words that wrap, as in a build without overflow checks, whereas the ends of chunks
are checked (`ResolvedClause.substitutionsBy`).  With checks, a word cannot pass `2 ^ 32`, and the
difference is not taken where it fits but only one of its words has reached `2 ^ 31`.  What is left
is the same: words below `2 ^ 31` give their difference, and the frequency of the lock wraps.
-/

namespace LogicNetwork

namespace TallyTable

/-- The frequency of a clause on a set of literals; zero without a tally. -/
def frequency (t : TallyTable) (literals : List GroundLiteral) (clause : Nat) : Int :=
  ((t.tally? literals clause).getD ⟨0, 0⟩).frequency

theorem frequency_ofList (xs : List Contribution) (literals : List GroundLiteral)
    (clause : Nat) :
    (ofList xs).frequency literals clause =
      ((Contribution.countFor xs literals clause true : Int) -
        Contribution.countFor xs literals clause false).bmod 4294967296 := by
  rw [frequency, getD_tally?_ofList, Tally.frequency_ofNat_eq_bmod]

/-- A number is a signed 32-bit word just if wrapping does not change it. -/
theorem bmod_eq_self_iff (x : Int) :
    x.bmod 4294967296 = x ↔ -2147483648 ≤ x ∧ x < 2147483648 := by
  rw [Int.bmod_eq_iff (by decide)]
  omega

/-- After any contributions, in any number, the frequency of a clause on a set of literals is the
number of its positive contributions less the number of its negative ones, wrapped to a signed
32-bit word; so it is this difference as an integer just if the difference is such a word.  The
words wrap as in a build without overflow checks; with them, counting stops at `2 ^ 32`
contributions of one sign, and a difference that fits is not reached if one sign has `2 ^ 31`
contributions or more and the other fewer. -/
theorem frequency_exact_iff (xs : List Contribution) (literals : List GroundLiteral)
    (clause : Nat) :
    let difference : Int := Contribution.countFor xs literals clause true -
      Contribution.countFor xs literals clause false
    (ofList xs).frequency literals clause = difference.bmod 4294967296 ∧
      ((ofList xs).frequency literals clause = difference ↔
        -2147483648 ≤ difference ∧ difference < 2147483648) := by
  intro difference
  have hfrequency : (ofList xs).frequency literals clause = difference.bmod 4294967296 :=
    frequency_ofList xs literals clause
  refine ⟨hfrequency, ?_⟩
  rw [hfrequency]
  exact bmod_eq_self_iff difference

end TallyTable

/-- Where all substitutions of a clause contribute the same, it is contributed as often as there are
substitutions. -/
theorem ResolvedClause.contributions_eq_replicate {c : ResolvedClause} {x : Contribution}
    (h : ∀ binding ∈ MixedRadix.numerals c.radices, c.contribution? binding = some x) :
    c.contributions = List.replicate (MixedRadix.count c.radices) x := by
  rw [contributions, List.filterMap_congr h, ← MixedRadix.length_numerals, ← List.map_const']
  exact congrFun List.filterMap_eq_map _

/-! ### A lock with ten dials -/

theorem Denotation.same_refl (v : Denotation) : v.same v = true := by
  cases v <;> simp [same]

/-- A restriction that has a slot on both sides is met wherever the slot has a constant. -/
theorem ResolvedRestriction.isMet_slot {slots : List Denotation} {i : Nat} (hi : i < slots.length) :
    (ResolvedRestriction.mk true (.slot i) (.slot i)).isMet slots = true := by
  have hslot : (ResolvedTerm.slot i).denote? slots = some slots[i] := by
    rw [ResolvedTerm.denote?, List.getElem?_eq_getElem hi]
  have hsame := Denotation.same_refl slots[i]
  rw [isMet, hslot]
  simp [hsame]

namespace Network.Lock

/-- Every combination of ten dials has its price. -/
def price : List (Clause ℚ) :=
  [⟨0, .soft 1, [], (List.range 10).map fun i => ⟨true, dial i, dial i⟩⟩]

/-- The price with its names looked up. -/
def resolvedPrice : ResolvedClause where
  index := 0
  hard := false
  slots := (List.range 10).map fun i => ⟨String.ofList (List.replicate i 'x'), digit⟩
  literals := []
  restrictions := (List.range 10).map fun i => ⟨true, .slot i, .slot i⟩

theorem resolveAll_price :
    resolveAll ⟨[], []⟩ evidence price [] = .ok [resolvedPrice] :=
  rfl

/-- Every combination violates the clause. -/
theorem outcome_resolvedPrice {binding : List Nat} (h : binding.length = 10) :
    resolvedPrice.outcome binding = .clause [] := by
  have hlength : (resolvedPrice.denotations binding).length = 10 := by
    rw [ResolvedClause.denotations, List.length_zipWith, h]
    rfl
  have hmet : (resolvedPrice.restrictions.all
      (·.isMet (resolvedPrice.denotations binding))) = true := by
    rw [List.all_eq_true]
    intro r hr
    obtain ⟨i, hi, rfl⟩ := List.mem_map.mp hr
    exact ResolvedRestriction.isMet_slot (by rw [hlength]; exact List.mem_range.mp hi)
  rw [ResolvedClause.outcome]
  simp only [hmet]
  rfl

/-- So all combinations contribute to the empty set of literals. -/
theorem contributionsOf_resolvedPrice :
    contributionsOf [resolvedPrice] =
      List.replicate (MixedRadix.count resolvedPrice.radices) ⟨[], 0, true⟩ := by
  rw [contributionsOf_eq_flatMap, List.flatMap_singleton]
  apply ResolvedClause.contributions_eq_replicate
  intro binding hbinding
  obtain ⟨n, -, rfl⟩ := List.mem_map.mp hbinding
  have hdigits := outcome_resolvedPrice (MixedRadix.length_digits resolvedPrice.radices n)
  exact ResolvedClause.contribution?_eq_some_iff.mpr ⟨[], hdigits, rfl⟩

end Network.Lock

namespace TallyTable

theorem countFor_replicate (n : Nat) (positive : Bool) :
    Contribution.countFor (List.replicate n ⟨[], 0, true⟩) [] 0 positive =
      if positive = true then n else 0 := by
  rw [Contribution.countFor, List.countP_replicate]
  cases positive <;> rfl

/-- The substitutions of one soft clause on ten dials can be counted, and every one of them is a
positive contribution to the empty set of literals; but their frequency is negative. -/
theorem frequency_wraps_lock :
    ∃ resolved, resolveAll ⟨[], []⟩ Network.Lock.evidence Network.Lock.price [] = .ok resolved ∧
      resolved.mapM (ResolvedClause.substitutionsBy 4096) = .ok [3486784401] ∧
      Contribution.countFor (contributionsOf resolved) [] 0 true = 3486784401 ∧
      Contribution.countFor (contributionsOf resolved) [] 0 false = 0 ∧
      (ofList (contributionsOf resolved)).frequency [] 0 = -808182895 := by
  have hcount : MixedRadix.count Network.Lock.resolvedPrice.radices = 3486784401 := rfl
  have hpositive : Contribution.countFor (contributionsOf [Network.Lock.resolvedPrice]) [] 0 true =
      3486784401 := by
    rw [Network.Lock.contributionsOf_resolvedPrice, countFor_replicate, hcount, if_pos rfl]
  have hnegative : Contribution.countFor (contributionsOf [Network.Lock.resolvedPrice]) [] 0 false =
      0 := by
    rw [Network.Lock.contributionsOf_resolvedPrice, countFor_replicate, if_neg Bool.false_ne_true]
  refine ⟨[Network.Lock.resolvedPrice], Network.Lock.resolveAll_price, rfl, hpositive, hnegative,
    ?_⟩
  rw [frequency_ofList, hpositive, hnegative]
  rfl

end TallyTable

end LogicNetwork
