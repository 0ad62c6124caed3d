import LogicNetwork.Grounding.Tally
import Mathlib.Data.List.Induction

/-!
# Tables of tallies

A table is read through `TallyTable.tally?`, the tally of one clause on one set of literals.
Every contribution counts in one place (`TallyTable.tally?_add`), so that the table of a list of
contributions has, for each set of literals and clause, the numbers of its contributions of
either sign (`TallyTable.tally?_ofList_eq_some_iff`).  As long as these stay below `2 ^ 31`
together, the frequency is their difference as integers (`Tally.frequency_ofNat`).  The order in
which contributions arrive does not change the entries (`TallyTable.entries_ofList_perm`).
-/

namespace LogicNetwork

/-! ### Tallies -/

/-- The frequency is the difference of the contributions as a signed 32-bit number. -/
theorem Tally.frequency_ofNat_eq_bmod (p m : Nat) :
    Tally.frequency ⟨UInt32.ofNat p, UInt32.ofNat m⟩ = ((p : Int) - m).bmod 4294967296 := by
  rw [Tally.frequency, UInt32.toInt32_ofNat', UInt32.toInt32_ofNat', ← Int32.ofInt_eq_ofNat,
    ← Int32.ofInt_eq_ofNat, ← Int32.ofInt_sub]
  exact Int32.toInt_ofInt

/-- Words do not wrap as long as the contributions are fewer than `2 ^ 31`. -/
theorem Tally.frequency_ofNat {p m : Nat} (h : p + m < 2147483648) :
    Tally.frequency ⟨UInt32.ofNat p, UInt32.ofNat m⟩ = p - m := by
  rw [Tally.frequency_ofNat_eq_bmod]
  exact Int.bmod_eq_of_le (by omega) (by omega)

theorem Tally.pos_of_ofNat_pos {n : Nat} (h : 0 < UInt32.ofNat n) : 0 < n := by
  rcases Nat.eq_zero_or_pos n with rfl | hn
  · cases h
  · exact hn

theorem Tally.ofNat_pos {n : Nat} (hpos : 0 < n) (hsmall : n < 2147483648) :
    0 < UInt32.ofNat n := by
  rw [UInt32.lt_iff_toNat_lt, UInt32.toNat_ofNat_of_lt' (by simp only [UInt32.size]; omega)]
  exact hpos

namespace Contribution

/-- Whether a contribution goes to a set of literals, from a clause. -/
def isFor (x : Contribution) (literals : List GroundLiteral) (clause : Nat) : Bool :=
  decide (x.literals = literals ∧ x.clause = clause)

theorem isFor_iff {x : Contribution} {literals : List GroundLiteral} {clause : Nat} :
    x.isFor literals clause = true ↔ x.literals = literals ∧ x.clause = clause :=
  decide_eq_true_iff

/-- The number of contributions of a clause to a set of literals, positive or negative ones. -/
def countFor (xs : List Contribution) (literals : List GroundLiteral) (clause : Nat)
    (positive : Bool) : Nat :=
  xs.countP fun x => x.isFor literals clause && x.positive == positive

theorem countFor_pos_iff {xs : List Contribution} {literals : List GroundLiteral} {clause : Nat}
    {positive : Bool} :
    0 < countFor xs literals clause positive ↔ ⟨literals, clause, positive⟩ ∈ xs := by
  rw [countFor, List.countP_pos_iff]
  constructor
  · rintro ⟨⟨_, _, _⟩, hx, h⟩
    rw [Bool.and_eq_true, isFor_iff, beq_iff_eq] at h
    obtain ⟨⟨rfl, rfl⟩, rfl⟩ := h
    exact hx
  · intro hx
    exact ⟨_, hx, by simp [isFor]⟩

/-- The contributions of a clause to a set of literals are those of either sign. -/
theorem countFor_add_countFor (xs : List Contribution) (literals : List GroundLiteral)
    (clause : Nat) :
    countFor xs literals clause true + countFor xs literals clause false =
      xs.countP fun x => x.isFor literals clause := by
  rw [List.countP_eq_countP_filter_add xs _ (·.positive), List.countP_filter, List.countP_filter]
  simp only [countFor, beq_true, beq_false]

/-- A clause makes no more contributions to one set of literals than it makes at all. -/
theorem countFor_add_countFor_le (xs : List Contribution) (literals : List GroundLiteral)
    (clause : Nat) :
    countFor xs literals clause true + countFor xs literals clause false ≤
      xs.countP fun x => x.clause == clause := by
  rw [countFor_add_countFor]
  exact List.countP_mono_left fun x _ h => beq_iff_eq.mpr (isFor_iff.mp h).2

end Contribution

/-! ### Tables -/

namespace TallyTable

/-- The tally of a clause on a set of literals. -/
def tally? (t : TallyTable) (literals : List GroundLiteral) (clause : Nat) : Option Tally :=
  t[literals]?.bind fun tallies => tallies[clause]?

theorem tally?_empty (literals : List GroundLiteral) (clause : Nat) :
    tally? ∅ literals clause = none := by
  rw [tally?, Std.TreeMap.getElem?_emptyc]
  rfl

/-- A contribution counts in its own place and nowhere else. -/
theorem tally?_add (t : TallyTable) (x : Contribution) (literals : List GroundLiteral)
    (clause : Nat) :
    (t.add x).tally? literals clause =
      if x.isFor literals clause = true then
        some (((t.tally? literals clause).getD ⟨0, 0⟩).add x.positive)
      else t.tally? literals clause := by
  rw [tally?, add, Std.TreeMap.getElem?_alter]
  by_cases hliterals : x.literals = literals
  · -- the inner table of these literals changes, at the clause of `x`
    subst hliterals
    rw [if_pos Std.ReflCmp.compare_self, Option.bind_some, Std.TreeMap.getElem?_alter, tally?]
    by_cases hclause : x.clause = clause
    · subst hclause
      rw [if_pos Std.ReflCmp.compare_self, if_pos (Contribution.isFor_iff.mpr ⟨rfl, rfl⟩)]
      cases t[x.literals]? <;> simp
    · have hfor : ¬ x.isFor x.literals clause = true := fun h =>
        hclause (Contribution.isFor_iff.mp h).2
      rw [if_neg (mt Std.LawfulEqCmp.eq_of_compare hclause), if_neg hfor]
      cases t[x.literals]? <;> simp
  · have hfor : ¬ x.isFor literals clause = true := fun h =>
      hliterals (Contribution.isFor_iff.mp h).1
    rw [if_neg (mt Std.LawfulEqCmp.eq_of_compare hliterals), if_neg hfor, tally?]

theorem ofList_append_singleton (xs : List Contribution) (x : Contribution) :
    ofList (xs ++ [x]) = (ofList xs).add x := by
  rw [ofList, List.foldl_append, List.foldl_cons, List.foldl_nil, ofList]

/-- The table of contributions has entries just where there are contributions. -/
theorem isSome_tally?_ofList (xs : List Contribution) (literals : List GroundLiteral)
    (clause : Nat) :
    ((ofList xs).tally? literals clause).isSome = xs.any fun x => x.isFor literals clause := by
  induction xs using List.reverseRecOn with
  | nil => exact congrArg Option.isSome (tally?_empty literals clause)
  | append_singleton xs x ih =>
    rw [ofList_append_singleton, tally?_add, List.any_append, List.any_cons, List.any_nil,
      Bool.or_false]
    cases hfor : x.isFor literals clause with
    | true => simp
    | false => simpa using ih

/-- The table of contributions counts those of either sign. -/
theorem getD_tally?_ofList (xs : List Contribution) (literals : List GroundLiteral)
    (clause : Nat) :
    ((ofList xs).tally? literals clause).getD ⟨0, 0⟩ =
      ⟨UInt32.ofNat (Contribution.countFor xs literals clause true),
        UInt32.ofNat (Contribution.countFor xs literals clause false)⟩ := by
  induction xs using List.reverseRecOn with
  | nil => exact congrArg (Option.getD · ⟨0, 0⟩) (tally?_empty literals clause)
  | append_singleton xs x ih =>
    rw [ofList_append_singleton, tally?_add]
    simp only [Contribution.countFor, List.countP_append, List.countP_singleton] at ih ⊢
    cases hfor : x.isFor literals clause with
    | false => simpa using ih
    | true =>
      rw [if_pos rfl, Option.getD_some, ih, Tally.add]
      cases x.positive <;> simp [UInt32.ofNat_add]

/-- The places of a table of contributions and what is counted there. -/
theorem tally?_ofList_eq_some_iff {xs : List Contribution} {literals : List GroundLiteral}
    {clause : Nat} {t : Tally} :
    (ofList xs).tally? literals clause = some t ↔
      (∃ positive, ⟨literals, clause, positive⟩ ∈ xs) ∧
        t = ⟨UInt32.ofNat (Contribution.countFor xs literals clause true),
          UInt32.ofNat (Contribution.countFor xs literals clause false)⟩ := by
  -- `hsome` says where there is a tally, and `hvalue` which one it is
  have hsome := isSome_tally?_ofList xs literals clause
  have hvalue := getD_tally?_ofList xs literals clause
  have hmem : (xs.any fun x => x.isFor literals clause) = true ↔
      ∃ positive, ⟨literals, clause, positive⟩ ∈ xs := by
    rw [List.any_eq_true]
    constructor
    · rintro ⟨⟨_, _, positive⟩, hx, h⟩
      obtain ⟨rfl, rfl⟩ := Contribution.isFor_iff.mp h
      exact ⟨positive, hx⟩
    · rintro ⟨positive, hx⟩
      exact ⟨_, hx, Contribution.isFor_iff.mpr ⟨rfl, rfl⟩⟩
  rw [← hmem, ← hsome, ← hvalue]
  cases (ofList xs).tally? literals clause <;> simp [eq_comm]

/-! ### Entries -/

/-- The entries of a table hold its tallies. -/
theorem mem_of_mem_entries {t : TallyTable} {literals : List GroundLiteral}
    {tallies : List (Nat × Tally)} (h : (literals, tallies) ∈ t.entries) (clause : Nat)
    (tally : Tally) :
    (clause, tally) ∈ tallies ↔ t.tally? literals clause = some tally := by
  rw [entries, List.mem_map] at h
  obtain ⟨⟨key, inner⟩, hmem, heq⟩ := h
  cases heq
  rw [Std.TreeMap.mem_toList_iff_getElem?_eq_some] at hmem
  rw [tally?, hmem, Option.bind_some, Std.TreeMap.mem_toList_iff_getElem?_eq_some]

/-- Every tally is in some entry. -/
theorem exists_mem_entries {t : TallyTable} {literals : List GroundLiteral} {clause : Nat}
    {tally : Tally} (h : t.tally? literals clause = some tally) :
    ∃ tallies, (literals, tallies) ∈ t.entries := by
  rw [tally?, Option.bind_eq_some_iff] at h
  obtain ⟨inner, hinner, -⟩ := h
  exact ⟨inner.toList, List.mem_map.mpr
    ⟨(literals, inner), Std.TreeMap.mem_toList_iff_getElem?_eq_some.mpr hinner, rfl⟩⟩

/-- Every contribution counts in some entry. -/
theorem exists_entry_of_mem {xs : List Contribution} {x : Contribution} (hx : x ∈ xs) :
    ∃ tallies, (x.literals, tallies) ∈ (ofList xs).entries ∧
      (x.clause, ⟨UInt32.ofNat (Contribution.countFor xs x.literals x.clause true),
        UInt32.ofNat (Contribution.countFor xs x.literals x.clause false)⟩) ∈ tallies := by
  have htally := tally?_ofList_eq_some_iff.mpr
    ⟨⟨x.positive, (hx : ⟨x.literals, x.clause, x.positive⟩ ∈ xs)⟩, rfl⟩
  obtain ⟨tallies, hentry⟩ := exists_mem_entries htally
  exact ⟨tallies, hentry, (mem_of_mem_entries hentry _ _).mpr htally⟩

/-- No two entries have the same literals. -/
theorem nodup_literals_entries (t : TallyTable) : (t.entries.map Prod.fst).Nodup := by
  rw [entries, List.map_map, List.nodup_iff_pairwise_ne, List.pairwise_map]
  refine Std.TreeMap.distinct_keys_toList.imp fun {a b} hne heq => hne ?_
  exact Std.LawfulEqCmp.compare_eq_iff_eq.mpr heq

/-- No entry has two tallies of one clause. -/
theorem nodup_clauses_of_mem_entries {t : TallyTable} {literals : List GroundLiteral}
    {tallies : List (Nat × Tally)} (h : (literals, tallies) ∈ t.entries) :
    (tallies.map Prod.fst).Nodup := by
  rw [entries, List.mem_map] at h
  obtain ⟨⟨key, inner⟩, -, heq⟩ := h
  cases heq
  rw [List.nodup_iff_pairwise_ne, List.pairwise_map]
  refine Std.TreeMap.distinct_keys_toList.imp fun {a b} hne heq => hne ?_
  exact Std.LawfulEqCmp.compare_eq_iff_eq.mpr heq

/-! ### Orders of arrival -/

theorem tally?_ofList_perm {xs ys : List Contribution} (h : xs.Perm ys)
    (literals : List GroundLiteral) (clause : Nat) :
    (ofList xs).tally? literals clause = (ofList ys).tally? literals clause := by
  have hcount : ∀ positive, Contribution.countFor xs literals clause positive =
      Contribution.countFor ys literals clause positive := by
    intro positive
    exact h.countP_eq _
  ext t
  rw [tally?_ofList_eq_some_iff, tally?_ofList_eq_some_iff, hcount, hcount]
  simp only [h.mem_iff]

/-- The table of contributions has an inner table just for the literals of contributions. -/
theorem isSome_getElem?_ofList (xs : List Contribution) (literals : List GroundLiteral) :
    (ofList xs)[literals]?.isSome = xs.any fun x => decide (x.literals = literals) := by
  induction xs using List.reverseRecOn with
  | nil =>
    show (∅ : TallyTable)[literals]?.isSome = false
    rw [Std.TreeMap.getElem?_emptyc]
    rfl
  | append_singleton xs x ih =>
    rw [ofList_append_singleton, add, Std.TreeMap.getElem?_alter, List.any_append, List.any_cons,
      List.any_nil, Bool.or_false]
    by_cases hliterals : x.literals = literals
    · subst hliterals
      rw [if_pos Std.ReflCmp.compare_self]
      simp
    · rw [if_neg (mt Std.LawfulEqCmp.eq_of_compare hliterals), ih]
      simp [hliterals]

/-- Contributions leave no trace of the order in which they arrive. -/
theorem entries_ofList_perm {xs ys : List Contribution} (h : xs.Perm ys) :
    (ofList xs).entries = (ofList ys).entries := by
  have hentries : ∀ t : TallyTable,
      t.entries = (t.map fun _ tallies => tallies.toList).toList := by
    intro t
    rw [entries, Std.TreeMap.toList_map]
  -- inner tables may be built differently, but list the same tallies
  have hinner : ∀ literals : List GroundLiteral,
      (ofList xs)[literals]?.map Std.TreeMap.toList =
        (ofList ys)[literals]?.map Std.TreeMap.toList := by
    intro literals
    have hsome : (ofList xs)[literals]?.isSome = (ofList ys)[literals]?.isSome := by
      rw [isSome_getElem?_ofList, isSome_getElem?_ofList]
      exact h.any_eq
    have htally := tally?_ofList_perm h literals
    unfold tally? at htally
    cases hx : (ofList xs)[literals]? with
    | none =>
      rw [hx] at hsome
      have hy : (ofList ys)[literals]? = none :=
        Option.isNone_iff_eq_none.mp (Option.isSome_eq_false_iff.mp hsome.symm)
      rw [hy]
    | some s =>
      rw [hx] at hsome htally
      obtain ⟨t, ht⟩ := Option.isSome_iff_exists.mp hsome.symm
      rw [ht] at htally
      rw [ht, Option.map_some, Option.map_some]
      exact congrArg some (Std.TreeMap.Equiv.of_forall_constGet?_eq htally).toList_eq
  rw [hentries, hentries]
  refine (Std.TreeMap.Equiv.of_forall_constGet?_eq fun literals => ?_).toList_eq
  have hget := hinner literals
  rw [Std.TreeMap.getElem?_map, Std.TreeMap.getElem?_map]
  exact hget

end TallyTable

end LogicNetwork
