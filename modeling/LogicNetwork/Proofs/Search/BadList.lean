import Mathlib.Data.List.Nodup
import Mathlib.Tactic.SplitIfs
import LogicNetwork.Proofs.ExactWeight
import LogicNetwork.Proofs.Lists
import LogicNetwork.Search.State

/-!
# The list of bad constraints

The list is kept with the place of every constraint in it, with the number of its hard constraints
and with the summed sizes of its soft weights.  `SearchState.IsTallied` says that these belong
together, and appending to the list, taking out of it and emptying it keep it so:

* `SearchState.IsTallied.addBad` and `SearchState.mem_addBad`;
* `SearchState.IsTallied.removeBad` and `SearchState.mem_removeBad`: the last constraint moves to
  the place that is free (`SearchState.getElem?_dropAt`), and is found there;
* `SearchState.IsTallied.clearBad`.

The sizes are summed in the order of the moves and not in that of the list, so the statement on the
sum is one about exact sums (`IsExact`).
-/

namespace LogicNetwork

/-! ### Sums over constraints -/

namespace SearchGraph

variable {α : Type} [WeightArithmetic α] {g : SearchGraph α}

/-- Whether the constraint of a number is hard. -/
def isHardAt (g : SearchGraph α) (c : Fin g.size) : Bool :=
  (g.constraintAt c).weight.isHard

/-- The summed sizes of the soft weights among constraints. -/
def softSizes (g : SearchGraph α) (cs : List (Fin g.size)) : α :=
  ((cs.filter fun c => !g.isHardAt c).map fun c => (g.constraintAt c).weight.softSize).sum

theorem softSizes_cons (c : Fin g.size) (cs : List (Fin g.size)) :
    g.softSizes (c :: cs) = if g.isHardAt c then g.softSizes cs
      else (g.constraintAt c).weight.softSize + g.softSizes cs := by
  unfold softSizes
  cases hhard : g.isHardAt c with
  | true => simp [hhard]
  | false => simp [hhard]

theorem softSizes_perm (hexact : IsExact α) {cs ds : List (Fin g.size)} (h : cs.Perm ds) :
    g.softSizes cs = g.softSizes ds := by
  induction h with
  | nil => rfl
  | cons c _ ih => rw [softSizes_cons, softSizes_cons, ih]
  | swap c d cs =>
    rw [softSizes_cons, softSizes_cons, softSizes_cons, softSizes_cons]
    split_ifs
    · rfl
    · rfl
    · rfl
    · rw [← hexact.add_assoc, ← hexact.add_assoc,
        hexact.add_comm (g.constraintAt c).weight.softSize]
  | trans _ _ ih₁ ih₂ => exact ih₁.trans ih₂

end SearchGraph

namespace SearchState

variable {α : Type} [WeightArithmetic α] {g : SearchGraph α} {s : SearchState g} {c d : Fin g.size}

/-! ### Taking out of a list -/

section Drop

variable {β : Type} {l : Array β} {i j : Nat} {x : β}

theorem lt_of_getElem?_eq_some (h : l[i]? = some x) : i < l.size :=
  (Array.getElem?_eq_some_iff.mp h).1

/-- The last entry takes the place that is free. -/
theorem getElem?_dropAt (hi : i < l.size) :
    (dropAt l i)[j]? = if j < l.size - 1 then if j = i then l[l.size - 1]? else l[j]? else none := by
  have hlast : l.size - 1 < l.size := by omega
  unfold dropAt
  rw [Array.getElem?_pop, Array.size_swapIfInBounds, Array.swapIfInBounds_def, dif_pos hi,
    dif_pos hlast, Array.getElem?_swap]
  split_ifs with hj hend heq heq
  · omega
  · omega
  · rw [Array.getElem?_eq_getElem hlast]
  · omega
  · omega
  · rfl
  · rfl

theorem perm_dropAt (h : l[i]? = some x) : l.toList.Perm (x :: (dropAt l i).toList) := by
  have hi := lt_of_getElem?_eq_some h
  have hlast : l.size - 1 < l.size := by omega
  unfold dropAt
  rw [Array.swapIfInBounds_def, dif_pos hi, dif_pos hlast]
  -- after the swap, the entry is the last one
  have hswap := Array.perm_iff_toList_perm.mp (Array.swap_perm hi hlast)
  generalize hm : l.swap i (l.size - 1) hi hlast = m at hswap
  have hsize : m.size = l.size := by rw [← hm, Array.size_swap]
  have hback : m.toList.getLast? = some x := by
    rw [List.getLast?_eq_getElem?, Array.length_toList, Array.getElem?_toList, hsize, ← hm,
      Array.getElem?_swap, if_pos rfl, ← Array.getElem?_eq_getElem hi, h]
  obtain ⟨front, hfront⟩ := List.getLast?_eq_some_iff.mp hback
  have hpop : m.pop.toList = front := by rw [Array.toList_pop, hfront, List.dropLast_concat]
  rw [hpop]
  refine hswap.symm.trans ?_
  rw [hfront]
  exact List.perm_append_singleton x front

/-- Without repetitions, the last entry is the only one that is found elsewhere than before. -/
theorem getElem?_dropAt_eq_some_iff [DecidableEq β] {y : β}
    (hunique : ∀ (k m : Nat) (z : β), l[k]? = some z → l[m]? = some z → k = m)
    (h : l[i]? = some x) (hy : y ≠ x) :
    (dropAt l i)[j]? = some y ↔
      if (dropAt l i)[i]? = some y then j = i else l[j]? = some y := by
  have hi := lt_of_getElem?_eq_some h
  have hne : l[i]? ≠ some y := fun heq => hy (Option.some.inj (heq.symm.trans h))
  rw [getElem?_dropAt hi, getElem?_dropAt hi, if_pos (rfl : i = i)]
  by_cases hlast : l[l.size - 1]? = some y
  · -- it is the last entry, which takes the place
    have hend : ¬ i = l.size - 1 := fun heq => hne (heq ▸ hlast)
    have hmoved : (if i < l.size - 1 then l[l.size - 1]? else none) = some y := by
      rw [if_pos (by omega), hlast]
    rw [if_pos hmoved]
    constructor
    · intro hj
      split_ifs at hj with hlt heq
      · exact heq
      · have := hunique _ _ _ hj hlast
        omega
    · rintro rfl
      rw [if_pos (by omega), if_pos rfl, hlast]
  · have hmoved : ¬ (if i < l.size - 1 then l[l.size - 1]? else none) = some y := by
      split_ifs
      · exact hlast
      · exact not_false
    rw [if_neg hmoved]
    constructor
    · intro hj
      split_ifs at hj with hlt heq
      · exact absurd hj hlast
      · exact hj
    · intro hj
      have hlt := lt_of_getElem?_eq_some hj
      have hji : j ≠ i := fun heq => hne (heq ▸ hj)
      have hjlast : j ≠ l.size - 1 := fun heq => hlast (heq ▸ hj)
      rw [if_pos (by omega), if_neg hji, hj]

end Drop

/-! ### The list and its tallies -/

/-- Whether places and sums are those of the list of bad constraints. -/
structure IsTallied (s : SearchState g) : Prop where
  place_eq_some_iff : ∀ (c : Fin g.size) (i : Nat), s.place.get c = some i ↔ s.bad[i]? = some c
  badHard_eq : s.badHard = s.bad.toList.countP g.isHardAt
  badSoft_eq : IsExact α → s.badSoft = g.softSizes s.bad.toList

namespace IsTallied

theorem isSome_place_iff (h : s.IsTallied) : (s.place.get c).isSome = true ↔ c ∈ s.bad := by
  rw [Array.mem_iff_getElem?, Option.isSome_iff_exists]
  exact exists_congr fun i => h.place_eq_some_iff c i

/-- A constraint is found at one place only. -/
theorem place_unique (h : s.IsTallied) (i j : Nat) (c : Fin g.size) (hi : s.bad[i]? = some c)
    (hj : s.bad[j]? = some c) : i = j := by
  rw [← h.place_eq_some_iff] at hi hj
  exact Option.some.inj (hi.symm.trans hj)

theorem nodup_bad (h : s.IsTallied) : s.bad.toList.Nodup := by
  rw [List.nodup_iff_getElem?_ne_getElem?]
  intro i j hij hj heq
  rw [Array.length_toList] at hj
  rw [Array.getElem?_toList, Array.getElem?_toList, Array.getElem?_eq_getElem hj] at heq
  have := h.place_unique i j s.bad[j] heq (Array.getElem?_eq_getElem hj)
  omega

end IsTallied

theorem mem_addBad : d ∈ (s.addBad c).bad ↔ d = c ∨ d ∈ s.bad := by
  show d ∈ s.bad.push c ↔ d = c ∨ d ∈ s.bad
  rw [Array.mem_push, or_comm]

theorem IsTallied.addBad (h : s.IsTallied) (hc : c ∉ s.bad) : (s.addBad c).IsTallied := by
  have hperm : (s.bad.push c).toList.Perm (c :: s.bad.toList) := by
    rw [Array.toList_push]
    exact List.perm_append_singleton c s.bad.toList
  refine ⟨fun d i => ?_, ?_, fun hexact => ?_⟩
  · show (s.place.set c (some s.bad.size)).get d = some i ↔ (s.bad.push c)[i]? = some d
    rw [Array.getElem?_push, get_set]
    by_cases hd : d = c
    · subst hd
      rw [if_pos rfl, Option.some.injEq]
      split_ifs with hi
      · simp [hi]
      · constructor
        · intro heq
          exact absurd heq.symm hi
        · intro hmem
          exact absurd (Array.mem_of_getElem? hmem) hc
    · -- the other places have not changed
      rw [if_neg (Ne.symm hd)]
      split_ifs with hi
      · -- the new place was beyond the end
        have hfull := h.place_eq_some_iff d i
        rw [hi, Array.getElem?_eq_none (Nat.le_refl s.bad.size)] at hfull
        rw [hi, hfull, Option.some.injEq]
        constructor
        · intro hnone
          cases hnone
        · intro heq
          exact absurd heq.symm hd
      · exact h.place_eq_some_iff d i
  · show (if g.isHardAt c then s.badHard + 1 else s.badHard) =
      (s.bad.push c).toList.countP g.isHardAt
    rw [hperm.countP_eq, List.countP_cons, h.badHard_eq]
    split_ifs <;> rfl
  · show (if g.isHardAt c then s.badSoft else s.badSoft + (g.constraintAt c).weight.softSize) =
      g.softSizes (s.bad.push c).toList
    rw [SearchGraph.softSizes_perm hexact hperm, SearchGraph.softSizes_cons, h.badSoft_eq hexact,
      hexact.add_comm (g.constraintAt c).weight.softSize]

/-! ### Taking out -/

section Removal

variable {i : Nat}

theorem bad_removeBad (hi : s.place.get c = some i) : (s.removeBad c).bad = dropAt s.bad i := by
  unfold removeBad
  rw [hi]

theorem badHard_removeBad (hi : s.place.get c = some i) :
    (s.removeBad c).badHard = if g.isHardAt c then s.badHard - 1 else s.badHard := by
  unfold removeBad
  rw [hi]
  rfl

theorem badSoft_removeBad (hi : s.place.get c = some i) :
    (s.removeBad c).badSoft = if g.isHardAt c then s.badSoft
      else s.badSoft - (g.constraintAt c).weight.softSize := by
  unfold removeBad
  rw [hi]
  rfl

theorem place_removeBad (hi : s.place.get c = some i) :
    (s.removeBad c).place.get d = if d = c then none
      else if (dropAt s.bad i)[i]? = some d then some i else s.place.get d := by
  unfold removeBad
  rw [hi]
  dsimp only
  rw [get_set]
  by_cases hd : d = c
  · rw [if_pos hd.symm, if_pos hd]
  · rw [if_neg (Ne.symm hd), if_neg hd]
    cases (dropAt s.bad i)[i]? with
    | none => rfl
    | some moved =>
      dsimp only
      rw [get_set]
      exact if_congr (Option.some.injEq moved d).symm.to_iff rfl rfl

end Removal

theorem mem_removeBad (h : s.IsTallied) (hc : c ∈ s.bad) :
    d ∈ (s.removeBad c).bad ↔ d ≠ c ∧ d ∈ s.bad := by
  obtain ⟨i, hi⟩ := Option.isSome_iff_exists.mp (h.isSome_place_iff.mpr hc)
  have hperm := perm_dropAt ((h.place_eq_some_iff c i).mp hi)
  have hnodup := hperm.nodup_iff.mp h.nodup_bad
  rw [bad_removeBad hi, ← Array.mem_toList_iff, ← Array.mem_toList_iff, hperm.mem_iff,
    List.mem_cons]
  constructor
  · intro hd
    exact ⟨fun heq => (List.nodup_cons.mp hnodup).1 (heq ▸ hd), .inr hd⟩
  · rintro ⟨hne, heq | hd⟩
    · exact absurd heq hne
    · exact hd

theorem IsTallied.removeBad (h : s.IsTallied) (hc : c ∈ s.bad) : (s.removeBad c).IsTallied := by
  have hmem : ∀ d, d ∈ (s.removeBad c).bad → d ≠ c := fun d hd => ((mem_removeBad h hc).mp hd).1
  obtain ⟨i, hi⟩ := Option.isSome_iff_exists.mp (h.isSome_place_iff.mpr hc)
  have hi' := (h.place_eq_some_iff c i).mp hi
  have hperm := perm_dropAt hi'
  refine ⟨fun d j => ?_, ?_, fun hexact => ?_⟩
  · rw [place_removeBad hi]
    by_cases hd : d = c
    · rw [if_pos hd]
      constructor
      · intro hnone
        cases hnone
      · intro hj
        exact absurd hd (hmem d (Array.mem_of_getElem? hj))
    · -- the only other one whose place changes is the last, which has moved
      have hplace := getElem?_dropAt_eq_some_iff h.place_unique hi' hd (j := j)
      rw [if_neg hd, bad_removeBad hi, hplace]
      split_ifs
      · rw [Option.some.injEq, eq_comm]
      · exact h.place_eq_some_iff d j
  · rw [badHard_removeBad hi, bad_removeBad hi, h.badHard_eq, hperm.countP_eq, List.countP_cons]
    split_ifs <;> rfl
  · rw [badSoft_removeBad hi, bad_removeBad hi, h.badSoft_eq hexact,
      SearchGraph.softSizes_perm hexact hperm, SearchGraph.softSizes_cons]
    split_ifs
    · rfl
    · rw [hexact.add_comm, hexact.add_sub_cancel]

/-! ### Emptying -/

omit [WeightArithmetic α] in
theorem foldl_set_none_eq_some_iff {β : Type} {size : Nat} (v : Vector (Option β) size)
    (cs : List (Fin size)) (d : Fin size) (x : β) :
    (cs.foldl (fun v c => v.set c none c.isLt) v).get d = some x ↔ d ∉ cs ∧ v.get d = some x := by
  induction cs generalizing v with
  | nil => exact (and_iff_right List.not_mem_nil).symm
  | cons c cs ih =>
    rw [List.foldl_cons, ih, get_set, List.mem_cons, not_or]
    by_cases hd : d = c
    · simp [hd]
    · simp [hd, Ne.symm hd]

theorem IsTallied.clearBad (h : s.IsTallied) : s.clearBad.IsTallied := by
  refine ⟨fun c i => ?_, rfl, fun _ => rfl⟩
  unfold SearchState.clearBad
  dsimp only
  rw [← Array.foldl_toList, foldl_set_none_eq_some_iff, Array.mem_toList_iff,
    h.place_eq_some_iff]
  -- a constraint that was not listed had no place
  constructor
  · rintro ⟨hc, hi⟩
    exact absurd (Array.mem_of_getElem? hi) hc
  · intro hi
    cases hi

end SearchState

end LogicNetwork
