import Mathlib.Data.List.Forall2
import Mathlib.Data.List.Perm.Basic

/-!
# Computations that can fail

When a chain of computations in `Except` succeeds, and with which fault it fails: binding,
mapping of results and of faults, and mapping over lists.
-/

namespace Except

variable {ε ε' α β : Type}

theorem isOk_iff {x : Except ε α} : x.isOk = true ↔ ∃ a, x = .ok a := by
  cases x <;> simp [Except.isOk, Except.toBool]

theorem any_toOption_iff {x : Except ε α} {p : α → Bool} :
    x.toOption.any p = true ↔ ∃ a, x = .ok a ∧ p a = true := by
  cases x <;> simp [Except.toOption]

theorem toOption_eq_some_iff {x : Except ε α} {a : α} : x.toOption = some a ↔ x = .ok a := by
  cases x <;> simp [Except.toOption]

theorem bind_eq_ok_iff {x : Except ε α} {f : α → Except ε β} {b : β} :
    (x >>= f) = .ok b ↔ ∃ a, x = .ok a ∧ f a = .ok b := by
  cases x <;> simp [bind, Except.bind]

theorem bind_eq_error_iff {x : Except ε α} {f : α → Except ε β} {e : ε} :
    (x >>= f) = .error e ↔ x = .error e ∨ ∃ a, x = .ok a ∧ f a = .error e := by
  cases x <;> simp [bind, Except.bind]

theorem bind_congr_of_ok {x : Except ε α} {f g : α → Except ε β}
    (h : ∀ a, x = .ok a → f a = g a) : (x >>= f) = x >>= g := by
  cases x with
  | error e => rfl
  | ok a => exact h a rfl

theorem map_eq_ok_iff {x : Except ε α} {f : α → β} {b : β} :
    x.map f = .ok b ↔ ∃ a, x = .ok a ∧ f a = b := by
  cases x <;> simp [Except.map]

theorem map_bind {γ : Type} (x : Except ε α) (f : α → Except ε β) (g : β → γ) :
    (x >>= f).map g = x >>= fun a => (f a).map g := by
  cases x <;> rfl

theorem mapError_eq_ok_iff {x : Except ε α} {f : ε → ε'} {a : α} :
    x.mapError f = .ok a ↔ x = .ok a := by
  cases x <;> simp [Except.mapError]

theorem mapError_eq_error_iff {x : Except ε α} {f : ε → ε'} {e : ε'} :
    x.mapError f = .error e ↔ ∃ d, x = .error d ∧ f d = e := by
  cases x <;> simp [Except.mapError]

theorem forM_eq_ok_iff {f : α → Except ε Unit} {as : List α} :
    as.forM f = .ok () ↔ ∀ a ∈ as, f a = .ok () := by
  induction as with
  | nil =>
    constructor
    · intro _ a ha
      cases ha
    · intro _
      rfl
  | cons a as ih =>
    show (f a >>= fun _ => as.forM f) = .ok () ↔ _
    rw [bind_eq_ok_iff, List.forall_mem_cons, ← ih]
    constructor
    · rintro ⟨⟨⟩, ha, has⟩
      exact ⟨ha, has⟩
    · rintro ⟨ha, has⟩
      exact ⟨(), ha, has⟩

/-- Mapping over a list succeeds if it does at every element, with the results in order. -/
theorem mapM_eq_ok_iff {f : α → Except ε β} {as : List α} {bs : List β} :
    as.mapM f = .ok bs ↔ List.Forall₂ (fun a b => f a = .ok b) as bs := by
  induction as generalizing bs with
  | nil =>
    constructor
    · intro h
      cases h
      exact .nil
    · intro h
      cases h
      rfl
  | cons a as ih =>
    rw [List.mapM_cons, bind_eq_ok_iff]
    constructor
    · rintro ⟨b, hb, htail⟩
      obtain ⟨rest, hrest, hbs⟩ := bind_eq_ok_iff.mp htail
      cases hbs
      exact .cons hb (ih.mp hrest)
    · rintro (_ | ⟨hb, hrest⟩)
      exact ⟨_, hb, bind_eq_ok_iff.mpr ⟨_, ih.mpr hrest, rfl⟩⟩

theorem mapM_congr {f g : α → Except ε β} {as : List α} (h : ∀ a ∈ as, f a = g a) :
    as.mapM f = as.mapM g := by
  induction as with
  | nil => rfl
  | cons a as ih =>
    rw [List.mapM_cons, List.mapM_cons, h a List.mem_cons_self,
      ih fun c hc => h c (List.mem_cons_of_mem a hc)]

theorem mapM_eq_ok_map {f : α → Except ε β} {g : α → β} {as : List α}
    (h : ∀ a ∈ as, f a = .ok (g a)) : as.mapM f = .ok (as.map g) := by
  rw [mapM_eq_ok_iff, List.forall₂_map_right_iff, List.forall₂_same]
  exact h

/-- Mapping over a list succeeds if it can at every element. -/
theorem exists_mapM_eq_ok {f : α → Except ε β} {R : α → β → Prop} {as : List α}
    (h : ∀ a ∈ as, ∃ b, f a = .ok b ∧ R a b) :
    ∃ bs, as.mapM f = .ok bs ∧ List.Forall₂ R as bs := by
  induction as with
  | nil => exact ⟨[], rfl, .nil⟩
  | cons a as ih =>
    rw [List.forall_mem_cons] at h
    obtain ⟨⟨b, hb, hrelated⟩, hrest⟩ := h
    obtain ⟨bs, hbs, hall⟩ := ih hrest
    refine ⟨b :: bs, mapM_eq_ok_iff.mpr (.cons hb (mapM_eq_ok_iff.mp hbs)), .cons hrelated hall⟩

/-- Where mapping over a list succeeds, so does mapping over a list that is related to it entry by
entry, if every entry hands success on. -/
theorem exists_mapM_eq_ok_of_forall₂ {γ δ : Type} {f : α → Except ε β} {g : γ → Except ε δ}
    {R : α → γ → Prop} {S : β → δ → Prop} {as : List α} {cs : List γ} {bs : List β}
    (hall : List.Forall₂ R as cs)
    (hstep : ∀ a c, R a c → ∀ b, f a = .ok b → ∃ d, g c = .ok d ∧ S b d)
    (h : as.mapM f = .ok bs) : ∃ ds, cs.mapM g = .ok ds ∧ List.Forall₂ S bs ds := by
  have hresults := mapM_eq_ok_iff.mp h
  clear h
  induction hall generalizing bs with
  | nil =>
    cases hresults
    exact ⟨[], rfl, .nil⟩
  | cons hac _ ih =>
    rcases hresults with _ | ⟨hb, hrest⟩
    obtain ⟨d, hd, hrelated⟩ := hstep _ _ hac _ hb
    obtain ⟨ds, hds, hall⟩ := ih hrest
    exact ⟨d :: ds, mapM_eq_ok_iff.mpr (.cons hd (mapM_eq_ok_iff.mp hds)), .cons hrelated hall⟩

/-- Mapping over a list in another order gives the same results in another order. -/
theorem exists_perm_of_mapM_eq_ok {f : α → Except ε β} {as as' : List α} {bs : List β}
    (hperm : as.Perm as') (h : as.mapM f = .ok bs) :
    ∃ bs', as'.mapM f = .ok bs' ∧ bs.Perm bs' := by
  obtain ⟨bs', hbs', hsame⟩ := List.perm_comp_forall₂ hperm.symm (mapM_eq_ok_iff.mp h)
  exact ⟨bs', mapM_eq_ok_iff.mpr hbs', hsame.symm⟩

/-- Every element of a list that is mapped with success has its result. -/
theorem exists_mem_of_mapM_eq_ok {f : α → Except ε β} {as : List α} {bs : List β}
    (h : as.mapM f = .ok bs) {a : α} (ha : a ∈ as) : ∃ b ∈ bs, f a = .ok b := by
  have hall := mapM_eq_ok_iff.mp h
  clear h
  induction hall with
  | nil => cases ha
  | cons hab _ ih =>
    rcases List.mem_cons.mp ha with rfl | ha
    · exact ⟨_, List.mem_cons_self, hab⟩
    · obtain ⟨b, hb, hab⟩ := ih ha
      exact ⟨b, List.mem_cons_of_mem _ hb, hab⟩

/-- Every result of mapping over a list is the one of an element. -/
theorem exists_of_mem_of_mapM_eq_ok {f : α → Except ε β} {as : List α} {bs : List β}
    (h : as.mapM f = .ok bs) {b : β} (hb : b ∈ bs) : ∃ a ∈ as, f a = .ok b := by
  have hall := mapM_eq_ok_iff.mp h
  clear h
  induction hall with
  | nil => cases hb
  | cons hab _ ih =>
    rcases List.mem_cons.mp hb with rfl | hb
    · exact ⟨_, List.mem_cons_self, hab⟩
    · obtain ⟨a, ha, hab⟩ := ih hb
      exact ⟨a, List.mem_cons_of_mem _ ha, hab⟩

/-- What is the same of every element and its result is the same of the lists. -/
theorem map_eq_map_of_mapM_eq_ok {γ : Type} {f : α → Except ε β} {as : List α} {bs : List β}
    (h : as.mapM f = .ok bs) {g : α → γ} {k : β → γ}
    (hsame : ∀ a b, f a = .ok b → k b = g a) : bs.map k = as.map g := by
  have hall := mapM_eq_ok_iff.mp h
  clear h
  induction hall with
  | nil => rfl
  | cons hab _ ih => rw [List.map_cons, List.map_cons, ih, hsame _ _ hab]

/-- The fault of mapping over a list is the one of an element. -/
theorem exists_of_mapM_eq_error {f : α → Except ε β} {as : List α} {e : ε}
    (h : as.mapM f = .error e) : ∃ a ∈ as, f a = .error e := by
  induction as with
  | nil => cases h
  | cons a as ih =>
    rw [List.mapM_cons, bind_eq_error_iff] at h
    rcases h with h | ⟨b, -, h⟩
    · exact ⟨a, List.mem_cons_self, h⟩
    · rcases bind_eq_error_iff.mp h with h | ⟨bs, -, hlast⟩
      · obtain ⟨found, hmem, hfault⟩ := ih h
        exact ⟨found, List.mem_cons_of_mem a hmem, hfault⟩
      · cases hlast

/-- A left fold of which every step succeeds is a left fold over what the steps are given. -/
theorem foldlM_eq_ok_foldl {γ : Type} {R : α → γ → Prop} {f : β → α → Except ε β}
    {g : β → γ → β} {as : List α} {cs : List γ} (hall : List.Forall₂ R as cs)
    (hstep : ∀ a, ∀ c ∈ cs, R a c → ∀ b, f b a = .ok (g b c)) (b : β) :
    as.foldlM f b = .ok (cs.foldl g b) := by
  induction hall generalizing b with
  | nil => rfl
  | cons hac _ ih =>
    rw [List.foldlM_cons, hstep _ _ List.mem_cons_self hac, List.foldl_cons]
    exact ih (fun a c hc => hstep a c (List.mem_cons_of_mem _ hc)) _

/-- A left fold whose steps are left folds is one left fold over all that they are given. -/
theorem foldlM_eq_foldlM_flatMap {γ : Type} {f : β → α → Except ε β} {step : β → γ → Except ε β}
    {g : α → List γ} (hstep : ∀ b a, f b a = (g a).foldlM step b) (as : List α) (b : β) :
    as.foldlM f b = (as.flatMap g).foldlM step b := by
  induction as generalizing b with
  | nil => rfl
  | cons a as ih =>
    rw [List.foldlM_cons, List.flatMap_cons, List.foldlM_append, hstep]
    exact bind_congr fun next => ih next

/-- In a left fold that succeeds, every step does. -/
theorem exists_of_foldlM_eq_ok {f : β → α → Except ε β} {as : List α} {b b' : β}
    (h : as.foldlM f b = .ok b') {a : α} (ha : a ∈ as) : ∃ c c', f c a = .ok c' := by
  induction as generalizing b with
  | nil => cases ha
  | cons first as ih =>
    obtain ⟨next, hnext, h⟩ := bind_eq_ok_iff.mp h
    rcases List.mem_cons.mp ha with rfl | ha
    · exact ⟨b, next, hnext⟩
    · exact ih h ha

/-- The fault of a left fold is the one of a step. -/
theorem exists_of_foldlM_eq_error {f : β → α → Except ε β} {as : List α} {b : β} {e : ε}
    (h : as.foldlM f b = .error e) : ∃ a ∈ as, ∃ c, f c a = .error e := by
  induction as generalizing b with
  | nil => cases h
  | cons a as ih =>
    rw [List.foldlM_cons, bind_eq_error_iff] at h
    rcases h with h | ⟨next, -, h⟩
    · exact ⟨a, List.mem_cons_self, b, h⟩
    · obtain ⟨found, hmem, hfault⟩ := ih h
      exact ⟨found, List.mem_cons_of_mem a hmem, hfault⟩

end Except
