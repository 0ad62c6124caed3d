import LogicNetwork.Proofs.Grounding.Agreement
import LogicNetwork.Proofs.Grounding.Substitutions

/-!
# Slots in another order

The order of the slots of a clause shows in the numbers by which resolved terms refer to them and in
the order of the entries of bindings.  It does not show in what terms denote.

Terms that can be resolved over slots can be resolved over the same slots in another order, and if
equal slots have equal constants, they denote the same there
(`Term.exists_resolve_of_perm`): by induction on terms, the places of a name on either side being
places of the same slot.  Literals and restrictions follow.

Bindings are told apart by the numbers that they give to names (`Slot.bind_numberOf`), and names do
not depend on the order: taking a binding over by names (`Slot.rebind`) gives equal slots equal
constants (`Slot.exists_denotations_eq_map`), and turns the numerals over the domains of the slots
into those over the domains in the other order (`Slot.numerals_perm`).
-/

namespace LogicNetwork

/-! ### What resolved terms denote -/

namespace ResolvedTerm

variable {slots slots' : List Slot} {r r' : ResolvedTerm} {rs rs' : List ResolvedTerm}

/-- Whether two terms, resolved over different lists of slots, denote the same wherever equal slots
have equal constants. -/
def Agree (slots slots' : List Slot) (r r' : ResolvedTerm) : Prop :=
  ∀ f : Slot → Denotation, r'.denote? (slots'.map f) = r.denote? (slots.map f)

/-- Whether lists of such terms do. -/
def AgreeAll (slots slots' : List Slot) (rs rs' : List ResolvedTerm) : Prop :=
  ∀ f : Slot → Denotation, symbols? (slots'.map f) rs' = symbols? (slots.map f) rs ∧
    ∀ ds, indices? (slots'.map f) rs' ds = indices? (slots.map f) rs ds

theorem AgreeAll.nil : AgreeAll slots slots' [] [] := by
  intro f
  refine ⟨rfl, fun ds => ?_⟩
  cases ds <;> rfl

theorem AgreeAll.cons (h : Agree slots slots' r r') (hrest : AgreeAll slots slots' rs rs') :
    AgreeAll slots slots' (r :: rs) (r' :: rs') := by
  intro f
  obtain ⟨hsymbols, hindices⟩ := hrest f
  refine ⟨by rw [symbols?, symbols?, h f, hsymbols], fun ds => ?_⟩
  cases ds with
  | nil => rfl
  | cons d ds => rw [indices?, indices?, h f, hindices]

theorem Agree.tabled (h : AgreeAll slots slots' rs rs') (t : FunctionTable) :
    Agree slots slots' (.tabled t rs) (.tabled t rs') := by
  intro f
  rw [denote?, denote?, (h f).2]

theorem Agree.computed (h : AgreeAll slots slots' rs rs') (g : List String → Option String) :
    Agree slots slots' (.computed g rs) (.computed g rs') := by
  intro f
  rw [denote?, denote?, (h f).1]

end ResolvedTerm

/-! ### Resolving -/

section Resolving

variable {e : Evidence} {b : Builtins} {slots slots' : List Slot}

/-- The places of a name on either side are places of the same slot. -/
theorem Slot.exists_findIdx?_of_perm (hperm : slots.Perm slots')
    (hnodup : (slots.map Slot.name).Nodup) {name : String} {i : Nat}
    (hi : (slots.findIdx? fun slot => slot.name == name) = some i) :
    ∃ j, (slots'.findIdx? fun slot => slot.name == name) = some j ∧ slots'[j]? = slots[i]? := by
  obtain ⟨hlt, hname, -⟩ := List.findIdx?_eq_some_iff_getElem.mp hi
  have hmem : slots[i] ∈ slots := List.getElem_mem hlt
  have hsome : (slots'.findIdx? fun slot => slot.name == name).isSome = true := by
    rw [List.findIdx?_isSome, List.any_eq_true]
    exact ⟨slots[i], hperm.mem_iff.mp hmem, hname⟩
  obtain ⟨j, hj⟩ := Option.isSome_iff_exists.mp hsome
  obtain ⟨hlt', hname', -⟩ := List.findIdx?_eq_some_iff_getElem.mp hj
  refine ⟨j, hj, ?_⟩
  have hmem' : slots'[j] ∈ slots := hperm.mem_iff.mpr (List.getElem_mem hlt')
  have hsame : slots'[j].name = slots[i].name :=
    (beq_iff_eq.mp hname').trans (beq_iff_eq.mp hname).symm
  rw [List.getElem?_eq_getElem hlt', List.getElem?_eq_getElem hlt,
    List.inj_on_of_nodup_map hnodup hmem' hmem hsame]

namespace Term

mutual

/-- A term that can be resolved over slots can be so over the slots in another order, and denotes
the same. -/
theorem exists_resolve_of_perm (hperm : slots.Perm slots') (hnodup : (slots.map Slot.name).Nodup) :
    ∀ (t : Term) (position : Option Domain) (r : ResolvedTerm),
      resolve e b slots t position = .ok r →
        ∃ r', resolve e b slots' t position = .ok r' ∧ ResolvedTerm.Agree slots slots' r r'
  | const c, some d, r, hr => by
    rw [resolve] at hr
    rw [resolve]
    cases hindex : d.indexOf? c with
    | none =>
      rw [hindex] at hr
      cases hr
    | some i =>
      rw [hindex] at hr
      cases hr
      exact ⟨_, rfl, fun _ => rfl⟩
  | const c, none, r, hr => by
    rw [resolve] at hr
    cases hr
    exact ⟨_, by rw [resolve], fun _ => rfl⟩
  | var v, _, r, hr => by
    rw [resolve] at hr
    split at hr
    · rename_i i hi
      cases hr
      obtain ⟨j, hj, hsame⟩ := Slot.exists_findIdx?_of_perm hperm hnodup hi
      refine ⟨.slot j, by rw [resolve, hj], fun f => ?_⟩
      rw [ResolvedTerm.denote?, ResolvedTerm.denote?, List.getElem?_map, List.getElem?_map, hsame]
    · cases hr
  | app f as, _, r, hr => by
    rw [resolve] at hr
    rw [resolve]
    split at hr
    · rename_i t _
      obtain ⟨rs, hrs, rfl⟩ := Except.map_eq_ok_iff.mp hr
      obtain ⟨rs', hrs', hagree⟩ := exists_resolveAll_of_perm hperm hnodup as _ rs hrs
      exact ⟨.tabled t rs', Except.map_eq_ok_iff.mpr ⟨rs', hrs', rfl⟩, .tabled hagree t⟩
    · split at hr
      · rename_i g _
        obtain ⟨rs, hrs, rfl⟩ := Except.map_eq_ok_iff.mp hr
        obtain ⟨rs', hrs', hagree⟩ := exists_resolveAll_of_perm hperm hnodup as _ rs hrs
        exact ⟨.computed g rs', Except.map_eq_ok_iff.mpr ⟨rs', hrs', rfl⟩, .computed hagree g⟩
      · cases hr

theorem exists_resolveAll_of_perm (hperm : slots.Perm slots')
    (hnodup : (slots.map Slot.name).Nodup) :
    ∀ (as : List Term) (positions : List (Option Domain)) (rs : List ResolvedTerm),
      resolveAll e b slots as positions = .ok rs →
        ∃ rs', resolveAll e b slots' as positions = .ok rs' ∧
          ResolvedTerm.AgreeAll slots slots' rs rs'
  | [], _, rs, hrs => by
    rw [resolveAll] at hrs ⊢
    · cases hrs
      exact ⟨[], rfl, .nil⟩
    all_goals exact fun _ _ _ _ heq => nomatch heq
  | _ :: _, [], rs, hrs => by
    rw [resolveAll] at hrs ⊢
    · cases hrs
      exact ⟨[], rfl, .nil⟩
    all_goals exact fun _ _ _ _ _ heq => nomatch heq
  | a :: as, p :: ps, rs, hrs => by
    rw [resolveAll] at hrs
    obtain ⟨r, hr, hrs⟩ := Except.bind_eq_ok_iff.mp hrs
    obtain ⟨rest, hrest, rfl⟩ := Except.map_eq_ok_iff.mp hrs
    obtain ⟨r', hr', hagree⟩ := exists_resolve_of_perm hperm hnodup a p r hr
    obtain ⟨rest', hrest', hagrees⟩ := exists_resolveAll_of_perm hperm hnodup as ps rest hrest
    refine ⟨r' :: rest', ?_, hagrees.cons hagree⟩
    rw [resolveAll, hr']
    exact Except.map_eq_ok_iff.mpr ⟨rest', hrest', rfl⟩

end

end Term

theorem Literal.exists_resolve_of_perm (hperm : slots.Perm slots')
    (hnodup : (slots.map Slot.name).Nodup) {literal : Literal} {r : ResolvedLiteral}
    (hr : literal.resolve e b slots = .ok r) :
    ∃ r', literal.resolve e b slots' = .ok r' ∧
      ∀ f : Slot → Denotation, r'.judge (slots'.map f) = r.judge (slots.map f) := by
  rw [resolve] at hr ⊢
  split at hr
  · obtain ⟨rs, hrs, rfl⟩ := Except.map_eq_ok_iff.mp hr
    obtain ⟨rs', hrs', hagree⟩ := Term.exists_resolveAll_of_perm hperm hnodup _ _ rs hrs
    refine ⟨_, Except.map_eq_ok_iff.mpr ⟨rs', hrs', rfl⟩, fun f => ?_⟩
    rw [ResolvedLiteral.judge, ResolvedLiteral.judge, (hagree f).2]
  · split at hr
    · obtain ⟨rs, hrs, rfl⟩ := Except.map_eq_ok_iff.mp hr
      obtain ⟨rs', hrs', hagree⟩ := Term.exists_resolveAll_of_perm hperm hnodup _ _ rs hrs
      refine ⟨_, Except.map_eq_ok_iff.mpr ⟨rs', hrs', rfl⟩, fun f => ?_⟩
      rw [ResolvedLiteral.judge, ResolvedLiteral.judge, (hagree f).1]
    · cases hr

theorem Restriction.exists_resolve_of_perm (hperm : slots.Perm slots')
    (hnodup : (slots.map Slot.name).Nodup) {restriction : Restriction} {r : ResolvedRestriction}
    (hr : restriction.resolve e b slots = .ok r) :
    ∃ r', restriction.resolve e b slots' = .ok r' ∧
      ∀ f : Slot → Denotation, r'.isMet (slots'.map f) = r.isMet (slots.map f) := by
  obtain ⟨left, hleft, hr⟩ := Except.bind_eq_ok_iff.mp hr
  obtain ⟨right, hright, hr⟩ := Except.bind_eq_ok_iff.mp hr
  cases hr
  obtain ⟨left', hleft', hagree⟩ := Term.exists_resolve_of_perm hperm hnodup _ _ left hleft
  obtain ⟨right', hright', hagree'⟩ := Term.exists_resolve_of_perm hperm hnodup _ _ right hright
  refine ⟨⟨restriction.equal, left', right'⟩, ?_, fun f => ?_⟩
  · rw [resolve, hleft', hright']
    rfl
  · rw [ResolvedRestriction.isMet, ResolvedRestriction.isMet, hagree f, hagree' f]

end Resolving

/-! ### Bindings by name -/

namespace Slot

variable {slots slots' : List Slot} {binding : List Nat} {number : String → Nat}

/-- The sizes of the domains of slots. -/
def radices (slots : List Slot) : List Nat :=
  slots.map fun slot => slot.domain.size

/-- The binding that gives every slot the number of its name. -/
def bind (slots : List Slot) (number : String → Nat) : List Nat :=
  slots.map fun slot => number slot.name

/-- The number that a binding gives to a name. -/
def numberOf (slots : List Slot) (binding : List Nat) (name : String) : Nat :=
  ((slots.zip binding).find? fun entry => entry.1.name == name).elim 0 Prod.snd

theorem denotations_bind (slots : List Slot) (number : String → Nat) :
    denotations slots (bind slots number) =
      slots.map fun slot => .member slot.domain (number slot.name) := by
  rw [denotations, bind, List.zipWith_map_right, List.zipWith_self]

theorem isNumeral_bind_iff : MixedRadix.IsNumeral (radices slots) (bind slots number) ↔
    ∀ slot ∈ slots, number slot.name < slot.domain.size := by
  induction slots with
  | nil => exact ⟨fun _ _ h => absurd h List.not_mem_nil, fun _ => trivial⟩
  | cons slot slots ih =>
    rw [List.forall_mem_cons, ← ih]
    rfl

/-- A binding is told by the numbers that it gives to names. -/
theorem bind_numberOf (hnodup : (slots.map Slot.name).Nodup)
    (hlength : binding.length = slots.length) : bind slots (numberOf slots binding) = binding := by
  induction slots generalizing binding with
  | nil => exact (List.length_eq_zero_iff.mp hlength).symm
  | cons slot slots ih =>
    obtain ⟨k, binding, rfl⟩ := List.exists_cons_of_length_eq_add_one hlength
    have hrest := ih (List.nodup_cons.mp hnodup).2 (by simpa using hlength)
    rw [bind, List.map_cons]
    congr 1
    · simp [numberOf]
    · -- the first slot has another name than the others
      refine (List.map_congr_left fun other hother => ?_).trans hrest
      have hne := key_ne_of_nodup_cons hnodup hother
      simp [numberOf, hne]

theorem numberOf_bind {slot : Slot} (hslot : slot ∈ slots) :
    numberOf slots (bind slots number) slot.name = number slot.name := by
  induction slots with
  | nil => cases hslot
  | cons first slots ih =>
    by_cases hname : first.name = slot.name
    · simp [numberOf, bind, hname]
    · have hrest := ih ((List.mem_cons.mp hslot).resolve_left fun heq => hname (heq ▸ rfl))
      simpa [numberOf, bind, hname] using hrest

/-- A binding of slots, taken over by names to other slots. -/
def rebind (slots slots' : List Slot) (binding : List Nat) : List Nat :=
  bind slots' (numberOf slots binding)

theorem rebind_rebind (hperm : slots.Perm slots') (hnodup : (slots.map Slot.name).Nodup)
    (hbinding : MixedRadix.IsNumeral (radices slots) binding) :
    rebind slots' slots (rebind slots slots' binding) = binding := by
  refine Eq.trans (List.map_congr_left fun slot hslot => ?_)
    (bind_numberOf hnodup (hbinding.length_eq.trans (List.length_map _)))
  exact numberOf_bind (hperm.mem_iff.mp hslot)

/-- Under a binding, and under the one taken over, equal slots have equal constants. -/
theorem exists_denotations_eq_map (hnodup : (slots.map Slot.name).Nodup)
    (hbinding : MixedRadix.IsNumeral (radices slots) binding) :
    ∃ f : Slot → Denotation, denotations slots binding = slots.map f ∧
      ∀ slots', denotations slots' (rebind slots slots' binding) = slots'.map f := by
  have hnumbers := bind_numberOf hnodup (hbinding.length_eq.trans (List.length_map _))
  refine ⟨fun slot => .member slot.domain (numberOf slots binding slot.name), ?_,
    fun slots' => denotations_bind slots' _⟩
  exact (congrArg (denotations slots) hnumbers).symm.trans (denotations_bind slots _)

theorem isNumeral_rebind (hperm : slots.Perm slots') (hnodup : (slots.map Slot.name).Nodup)
    (hbinding : MixedRadix.IsNumeral (radices slots) binding) :
    MixedRadix.IsNumeral (radices slots') (rebind slots slots' binding) := by
  have hnumbers := bind_numberOf hnodup (hbinding.length_eq.trans (List.length_map _))
  rw [← hnumbers, isNumeral_bind_iff] at hbinding
  exact isNumeral_bind_iff.mpr fun slot hslot => hbinding slot (hperm.mem_iff.mpr hslot)

/-- Taking the bindings over gives all bindings in the other order, each of them once. -/
theorem numerals_perm (hperm : slots.Perm slots') (hnodup : (slots.map Slot.name).Nodup) :
    ((MixedRadix.numerals (radices slots)).map (rebind slots slots')).Perm
      (MixedRadix.numerals (radices slots')) := by
  have hnodup' : (slots'.map Slot.name).Nodup := (hperm.map Slot.name).nodup_iff.mp hnodup
  have hinj : ((MixedRadix.numerals (radices slots)).map (rebind slots slots')).Nodup := by
    refine (MixedRadix.nodup_numerals _).map_on fun x hx y hy heq => ?_
    rw [MixedRadix.mem_numerals] at hx hy
    rw [← rebind_rebind hperm hnodup hx, heq, rebind_rebind hperm hnodup hy]
  refine (List.perm_ext_iff_of_nodup hinj (MixedRadix.nodup_numerals _)).mpr fun x => ?_
  rw [List.mem_map, MixedRadix.mem_numerals]
  constructor
  · rintro ⟨binding, hbinding, rfl⟩
    exact isNumeral_rebind hperm hnodup (MixedRadix.mem_numerals.mp hbinding)
  · intro hx
    exact ⟨rebind slots' slots x,
      MixedRadix.mem_numerals.mpr (isNumeral_rebind hperm.symm hnodup' hx),
      rebind_rebind hperm.symm hnodup' hx⟩

end Slot

end LogicNetwork
