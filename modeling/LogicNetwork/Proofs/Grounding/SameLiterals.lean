import LogicNetwork.Proofs.Grounding.Positions

/-!
# Clauses of the same literals

Two clauses have the same literals (`Clause.SameLiterals`) if they differ in the order of their
literals and in repetitions alone.  Their variables then occur in different orders, but typing them
comes to the same (`Clause.SameLiterals.exists_typing`), because it depends on the positions of
variables alone and not on their order.

The first occurrence of a variable is another one, so what it is annotated with must not depend on
the occurrence (`Clause.IsUniform`).  Then the clauses have the same slots, in another order
(`Clause.SameLiterals.exists_slots_perm`), and so the domains of their variables have constants
together (`Clause.IsInhabited`).
-/

namespace LogicNetwork

namespace Clause

variable {α : Type} {c c' : Clause α} {l : Layout}

/-- Whether two clauses have the same index, weight and restrictions, and the same literals: in any
order, and however often. -/
structure SameLiterals (c c' : Clause α) : Prop where
  index_eq : c'.index = c.index
  weight_eq : c'.weight = c.weight
  restrictions_eq : c'.restrictions = c.restrictions
  mem_literals : ∀ literal, literal ∈ c'.literals ↔ literal ∈ c.literals

/-- Whether all occurrences of a variable carry the same annotation, or all of them none. -/
def IsUniform (c : Clause α) : Prop :=
  ∀ v ∈ c.occurrences, ∀ w ∈ c.occurrences, v.name = w.name → v.domain = w.domain

instance (c : Clause α) : Decidable c.IsUniform :=
  inferInstanceAs (Decidable (∀ v ∈ c.occurrences, ∀ w ∈ c.occurrences, v.name = w.name →
    v.domain = w.domain))

/-- Whether the domains of the variables of a clause have constants. -/
def IsInhabited (c : Clause α) (l : Layout) : Prop :=
  ∀ slots ∈ (c.slots l).toOption, ∀ slot ∈ slots, 0 < slot.domain.size

instance (c : Clause α) (l : Layout) : Decidable (c.IsInhabited l) :=
  inferInstanceAs (Decidable (∀ slots ∈ (c.slots l).toOption, ∀ slot ∈ slots,
    0 < slot.domain.size))

/-! ### Free variables -/

/-- Where annotations do not depend on the occurrence, any occurrence is as good as the first. -/
theorem IsUniform.mem_freeVariables (h : c.IsUniform) {v : Variable} :
    v ∈ c.freeVariables ↔ v ∈ c.occurrences := by
  refine ⟨mem_of_mem_firstOccurrences, fun hv => ?_⟩
  obtain ⟨w, hw, hname⟩ := exists_firstOccurrence hv List.not_mem_nil
  have hdomain := h w (mem_of_mem_firstOccurrences hw) v hv hname
  obtain ⟨name, domain⟩ := v
  obtain rfl : w = ⟨name, domain⟩ := Variable.mk.injEq .. ▸ ⟨hname, hdomain⟩
  exact hw

theorem nodup_freeVariables (c : Clause α) : c.freeVariables.Nodup :=
  (nodup_firstOccurrences [] c.occurrences).of_map _

theorem domain?_annotations_eq_some_iff {name d : String} :
    c.annotations.domain? name = some d ↔
      ∃ v ∈ c.freeVariables, v.name = name ∧ v.domain = some d := by
  constructor
  · intro h
    obtain ⟨entry, hentry, rfl⟩ := Option.map_eq_some_iff.mp h
    obtain ⟨v, hv, hvd⟩ := List.mem_filterMap.mp (List.mem_of_find?_eq_some hentry)
    obtain ⟨domain, hdomain, rfl⟩ := Option.map_eq_some_iff.mp hvd
    exact ⟨v, hv, by simpa using List.find?_some hentry, hdomain⟩
  · rintro ⟨v, hv, rfl, hdomain⟩
    exact (domain?_annotations hv).trans hdomain

/-! ### Slots -/

namespace SameLiterals

theorem symm (h : c.SameLiterals c') : c'.SameLiterals c :=
  ⟨h.index_eq.symm, h.weight_eq.symm, h.restrictions_eq.symm,
    fun literal => (h.mem_literals literal).symm⟩

theorem mem_occurrences (h : c.SameLiterals c') (v : Variable) :
    v ∈ c'.occurrences ↔ v ∈ c.occurrences := by
  simp only [occurrences, List.mem_append, List.mem_flatMap, h.mem_literals, h.restrictions_eq]

theorem mem_positions (h : c.SameLiterals c') (l : Layout) (x : Variable × Option String) :
    x ∈ c'.positions l ↔ x ∈ c.positions l := by
  simp only [positions, List.mem_append, List.mem_flatMap, h.mem_literals, h.restrictions_eq]

theorem isUniform (h : c.SameLiterals c') (huniform : c.IsUniform) : c'.IsUniform := by
  intro v hv w hw
  exact huniform v ((h.mem_occurrences v).mp hv) w ((h.mem_occurrences w).mp hw)

/-- The variables are the same, in another order. -/
theorem freeVariables_perm (h : c.SameLiterals c') (huniform : c.IsUniform) :
    c.freeVariables.Perm c'.freeVariables := by
  refine (List.perm_ext_iff_of_nodup c.nodup_freeVariables c'.nodup_freeVariables).mpr fun v => ?_
  rw [huniform.mem_freeVariables, (h.isUniform huniform).mem_freeVariables, h.mem_occurrences]

/-- Typing gives every variable the same domain, or fails for both clauses. -/
theorem exists_typing (h : c.SameLiterals c') (huniform : c.IsUniform) {types : Typing}
    (htypes : c.typing l = .ok types) :
    ∃ types', c'.typing l = .ok types' ∧ ∀ name, types'.domain? name = types.domain? name := by
  rw [typing_eq] at htypes
  rw [typing_eq]
  have hdomain := Typing.domain?_placeAll htypes
  have hannotations : ∀ name d, c'.annotations.domain? name = some d ↔
      c.annotations.domain? name = some d := by
    intro name d
    simp only [domain?_annotations_eq_some_iff, (h.freeVariables_perm huniform).mem_iff]
  -- the domains of the first typing show that there are no conflicts in the second
  have hkeeps : ∀ name d, c'.annotations.domain? name = some d → types.domain? name = some d :=
    fun name d hd => (hdomain name d).mpr (.inl ((hannotations name d).mp hd))
  have hgives : ∀ x ∈ c'.positions l, ∀ d, x.2 = some d → types.domain? x.1.name = some d :=
    fun x hx d hd => (hdomain _ d).mpr (.inr ⟨x, (h.mem_positions l x).mp hx, rfl, hd⟩)
  obtain ⟨types', htypes'⟩ := Typing.exists_placeAll c'.index hkeeps hgives
  refine ⟨types', htypes', fun name => Option.ext fun d => ?_⟩
  rw [Typing.domain?_placeAll htypes', hdomain, hannotations]
  simp only [h.mem_positions]

/-- The slots are the same, in another order. -/
theorem exists_slots_perm (h : c.SameLiterals c') (huniform : c.IsUniform) {slots : List Slot}
    (hslots : c.slots l = .ok slots) : ∃ slots', c'.slots l = .ok slots' ∧ slots.Perm slots' := by
  obtain ⟨types, htypes, hslots⟩ := Except.bind_eq_ok_iff.mp hslots
  obtain ⟨types', htypes', hdomain⟩ := h.exists_typing huniform htypes
  have hslot : c'.slot l types' = c.slot l types := by
    funext v
    rw [slot, slot, hdomain, h.index_eq]
  obtain ⟨slots', hslots', hperm⟩ :=
    Except.exists_perm_of_mapM_eq_ok (h.freeVariables_perm huniform) hslots
  rw [← hslot] at hslots'
  exact ⟨slots', Except.bind_eq_ok_iff.mpr ⟨types', htypes', hslots'⟩, hperm⟩

theorem isInhabited (h : c.SameLiterals c') (huniform : c.IsUniform)
    (hinhabited : c.IsInhabited l) : c'.IsInhabited l := by
  intro slots' hslots' slot hslot
  obtain ⟨slots, hslots, hperm⟩ := h.symm.exists_slots_perm (h.isUniform huniform)
    (Except.toOption_eq_some_iff.mp hslots')
  exact hinhabited slots (Except.toOption_eq_some_iff.mpr hslots) slot (hperm.mem_iff.mp hslot)

end SameLiterals

end Clause

end LogicNetwork
