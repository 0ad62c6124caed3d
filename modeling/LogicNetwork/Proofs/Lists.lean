import Mathlib.Algebra.BigOperators.Ring.List
import Mathlib.Data.List.Nodup
import Mathlib.Tactic.Ring

/-!
# Keys, order, counts, sums and entries

Lists whose elements have distinct keys are read as tables: an element is found by its key
(`find?_key_eq_some`), and a sum to which one key alone contributes is its term
(`sum_map_ite_of_mem`).  A list in a strict order is the only one that has its members
(`eq_of_pairwise_of_mem_iff`).  Left folds that add to a measure, and counts, are sums
(`measure_foldl_eq_add_sum`, `natCast_countP_eq_sum`).  A write to a vector shows at its index alone
(`get_set`).
-/

namespace LogicNetwork

/-! ### Distinct keys -/

section Keys

variable {β κ : Type} [DecidableEq κ] {key : β → κ} {xs : List β} {x y : β}

omit [DecidableEq κ] in
theorem key_ne_of_nodup_cons (hnodup : ((x :: xs).map key).Nodup) (hy : y ∈ xs) :
    key x ≠ key y := by
  rw [List.map_cons, List.nodup_cons] at hnodup
  intro heq
  exact hnodup.1 (heq ▸ List.mem_map_of_mem hy)

theorem find?_key_eq_some (hnodup : (xs.map key).Nodup) (hx : x ∈ xs) :
    xs.find? (fun y => key y == key x) = some x := by
  induction xs with
  | nil => cases hx
  | cons y xs ih =>
    rw [List.find?_cons]
    rcases List.mem_cons.mp hx with rfl | hx
    · rw [beq_self_eq_true]
    · rw [beq_eq_false_iff_ne.mpr (key_ne_of_nodup_cons hnodup hx)]
      rw [List.map_cons, List.nodup_cons] at hnodup
      exact ih hnodup.2 hx

end Keys

/-! ### Strict orders -/

section Order

variable {β : Type} {r : β → β → Prop} {xs ys : List β}

theorem nodup_of_pairwise (hirrefl : ∀ x, ¬ r x x) (hxs : xs.Pairwise r) : xs.Nodup := by
  refine List.nodup_iff_pairwise_ne.mpr (hxs.imp fun {x y} hxy heq => ?_)
  rw [heq] at hxy
  exact hirrefl y hxy

/-- Lists in a strict order that have the same members are the same. -/
theorem eq_of_pairwise_of_mem_iff (hirrefl : ∀ x, ¬ r x x)
    (htrans : ∀ {x y z}, r x y → r y z → r x z) (hxs : xs.Pairwise r) (hys : ys.Pairwise r)
    (h : ∀ x, x ∈ xs ↔ x ∈ ys) : xs = ys := by
  have hperm : xs.Perm ys := (List.perm_ext_iff_of_nodup (nodup_of_pairwise hirrefl hxs)
    (nodup_of_pairwise hirrefl hys)).mpr h
  exact hperm.eq_of_pairwise (fun x _ _ _ hxy hyx => absurd (htrans hxy hyx) (hirrefl x)) hxs hys

end Order

/-! ### Sums -/

section Sums

variable {β γ M : Type}

/-- A sum over distinct keys to which one key alone contributes. -/
theorem sum_map_ite_of_mem {κ : Type} [DecidableEq κ] [AddMonoid M] {keys : List κ}
    (hnodup : keys.Nodup) {a : κ} (ha : a ∈ keys) (f : κ → M) :
    (keys.map fun k => if k = a then f k else 0).sum = f a := by
  rw [List.sum_map_eq_nsmul_single a _ fun k hk _ => if_neg hk,
    List.count_eq_one_of_mem hnodup ha, one_nsmul, if_pos rfl]

/-- A left fold of which every step adds to a measure adds up to a sum. -/
theorem measure_foldl_eq_add_sum [AddMonoid M] {step : γ → β → γ} {m : γ → M} {g : β → M}
    (hstep : ∀ c x, m (step c x) = m c + g x) (xs : List β) (c : γ) :
    m (xs.foldl step c) = m c + (xs.map g).sum := by
  induction xs generalizing c with
  | nil => exact (add_zero (m c)).symm
  | cons x xs ih => rw [List.foldl_cons, ih, hstep, List.map_cons, List.sum_cons, add_assoc]

/-- A left fold of which every step keeps what it has found or takes the entry finds an entry, or
what it began with. -/
theorem foldl_fst_mem {step : β × γ → β → β × γ}
    (hstep : ∀ found x, (step found x).1 = found.1 ∨ (step found x).1 = x) (xs : List β)
    (found : β × γ) :
    (xs.foldl step found).1 = found.1 ∨ (xs.foldl step found).1 ∈ xs := by
  induction xs generalizing found with
  | nil => exact .inl rfl
  | cons x xs ih =>
    rw [List.foldl_cons]
    rcases ih (step found x) with heq | hmem
    · rcases hstep found x with hkept | htaken
      · exact .inl (heq.trans hkept)
      · exact .inr (List.mem_cons.mpr (.inl (heq.trans htaken)))
    · exact .inr (List.mem_cons_of_mem x hmem)

/-- Pairs with a truth value are counted by their first part for either value. -/
theorem count_map_fst [DecidableEq β] (xs : List (β × Bool)) (x : β) (value : Bool) :
    (xs.map Prod.fst).count x = xs.count (x, value) + xs.count (x, !value) := by
  induction xs with
  | nil => rfl
  | cons y xs ih =>
    obtain ⟨y, other⟩ := y
    rw [List.map_cons, List.count_cons, List.count_cons, List.count_cons, ih]
    by_cases hy : y = x
    · subst hy
      cases value <;> cases other <;> simp <;> omega
    · simp [hy]

/-- Counting is summing the truth values. -/
theorem natCast_countP_eq_sum (p : β → Bool) (xs : List β) :
    (xs.countP p : Int) = (xs.map fun x => (p x).toInt).sum := by
  induction xs with
  | nil => rfl
  | cons x xs ih =>
    rw [List.map_cons, List.sum_cons, ← ih, List.countP_cons]
    cases p x
    · simp
    · simp [Int.add_comm]

/-- In a sum over a filtered list, the other elements count as zero. -/
theorem sum_map_filter [AddCommMonoid M] (p : β → Bool) (f : β → M) (xs : List β) :
    ((xs.filter p).map f).sum = (xs.map fun x => if p x = true then f x else 0).sum := by
  rw [List.sum_map_ite, List.sum_map_zero, add_zero]
  simp

theorem sum_map_sum_comm [AddCommMonoid M] (xs : List β) (ys : List γ) (f : β → γ → M) :
    (xs.map fun x => (ys.map fun y => f x y).sum).sum =
      (ys.map fun y => (xs.map fun x => f x y).sum).sum := by
  induction xs with
  | nil => exact List.sum_map_zero.symm
  | cons x xs ih =>
    rw [List.map_cons, List.sum_cons, ih, ← List.sum_map_add]
    rfl

/-- A sum may be taken key by key, if every key is listed once. -/
theorem sum_map_sum_filter_key {κ : Type} [DecidableEq κ] [AddCommMonoid M] {keys : List κ}
    (hnodup : keys.Nodup) {key : β → κ} {xs : List β} (hkeys : ∀ x ∈ xs, key x ∈ keys)
    (f : β → M) :
    (keys.map fun k => ((xs.filter fun x => decide (k = key x)).map f).sum).sum =
      (xs.map f).sum := by
  simp only [sum_map_filter, decide_eq_true_eq]
  rw [sum_map_sum_comm]
  refine congrArg List.sum (List.map_congr_left fun x hx => ?_)
  exact sum_map_ite_of_mem hnodup (hkeys x hx) fun _ => f x

theorem sum_map_sub [AddCommGroup M] (xs : List β) (f g : β → M) :
    (xs.map f).sum - (xs.map g).sum = (xs.map fun x => f x - g x).sum := by
  induction xs with
  | nil => exact sub_zero 0
  | cons x xs ih =>
    rw [List.map_cons, List.map_cons, List.map_cons, List.sum_cons, List.sum_cons, List.sum_cons,
      ← ih, add_sub_add_comm]

end Sums

/-! ### Lists side by side -/

/-- Two images of a list, both of which leave out the same entries, are related entry by entry. -/
theorem forall₂_filterMap_filter {β γ δ : Type} {R : γ → δ → Prop} {f : β → Option γ} {g : β → δ}
    {p : δ → Bool} {xs : List β}
    (h : ∀ x ∈ xs, (f x = none ∧ p (g x) = false) ∨
      ∃ y, f x = some y ∧ p (g x) = true ∧ R y (g x)) :
    List.Forall₂ R (xs.filterMap f) ((xs.map g).filter p) := by
  induction xs with
  | nil => exact .nil
  | cons x xs ih =>
    rw [List.forall_mem_cons] at h
    obtain ⟨⟨hnone, hout⟩ | ⟨y, hy, hin, hrelated⟩, hrest⟩ := h
    · rw [List.filterMap_cons_none hnone, List.map_cons, List.filter_cons_of_neg (by simp [hout])]
      exact ih hrest
    · rw [List.filterMap_cons_some hy, List.map_cons, List.filter_cons_of_pos hin]
      exact .cons hrelated (ih hrest)

/-- In related lists, every element on the right has one on the left. -/
theorem exists_of_forall₂_of_mem {β γ : Type} {R : β → γ → Prop} {xs : List β} {ys : List γ}
    (h : List.Forall₂ R xs ys) {y : γ} (hy : y ∈ ys) : ∃ x ∈ xs, R x y := by
  induction h with
  | nil => cases hy
  | cons hxy _ ih =>
    rcases List.mem_cons.mp hy with rfl | hy
    · exact ⟨_, List.mem_cons_self, hxy⟩
    · obtain ⟨x, hx, hrelated⟩ := ih hy
      exact ⟨x, List.mem_cons_of_mem _ hx, hrelated⟩

/-! ### Entries of vectors -/

theorem get_set {β : Type} {size : Nat} (v : Vector β size) (i j : Fin size) (x : β) :
    (v.set i x i.isLt).get j = if i = j then x else v.get j := by
  show (v.set i x i.isLt)[(j : Nat)] = _
  rw [Vector.getElem_set]
  exact if_congr Fin.ext_iff.symm rfl rfl

end LogicNetwork
