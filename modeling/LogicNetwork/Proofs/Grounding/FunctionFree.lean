import LogicNetwork.Proofs.Grounding.Positions

/-!
# Clauses without functions

Without functions, every term has a constant under every substitution (`Term.exists_denote`), and at
a position with a domain it is a constant of that domain (`Term.denote_eq_member`): a constant has
been looked up there, and a variable ranges over the domain of each declared position that it stands
at.  So every atom of a clause without functions has an id, provided that all blocks end at `2 ^ 31`
at the latest, and nothing but a restriction skips a substitution
(`Clause.skipped_iff_of_isFunctionFree`).
-/

namespace LogicNetwork

/-! ### Constants and variables -/

/-- Whether a term is a constant or a variable. -/
def Term.isSimple : Term → Bool
  | app _ _ => false
  | _ => true

/-- Whether no function occurs in a clause. -/
structure Clause.IsFunctionFree {α : Type} (c : Clause α) : Prop where
  arguments : ∀ literal ∈ c.literals, ∀ t ∈ literal.arguments, t.isSimple = true
  sides : ∀ r ∈ c.restrictions, r.left.isSimple = true ∧ r.right.isSimple = true

/-- Whether the slots of occurrences have the domains of their positions. -/
def Slot.Suit (slots : List Slot) (xs : List (Variable × Option String)) : Prop :=
  ∀ x ∈ xs, ∀ slot ∈ slots, slot.name = x.1.name → ∀ d, x.2 = some d → slot.domain.name = d

/-- This is so in a clause that is resolved. -/
theorem Clause.suit_of_resolve {α : Type} {c : Clause α} {schema : Schema} {domains : Domains}
    {e : Evidence} {b : Builtins} {r : ResolvedClause}
    (hl : Layout.build schema domains = .ok e.layout) (hr : c.resolve e b = .ok r) :
    Slot.Suit r.slots (c.placed schema) := by
  intro x hx slot hslot hname d hd
  obtain ⟨own, -, -, honly, hposition, -⟩ := exists_slot hl hr hx
  rw [honly slot hslot hname]
  exact (Domains.get?_eq_some (hposition d hd)).2

/-! ### Terms under a substitution -/

section Terms

variable {slots : List Slot} {binding : List Nat} {e : Evidence} {b : Builtins}

/-- The slot of a variable holds a constant of its domain. -/
theorem Slot.exists_member
    (hbinding : MixedRadix.IsNumeral (slots.map fun slot => slot.domain.size) binding)
    {name : String} {i : Nat} (hi : (slots.findIdx? fun slot => slot.name == name) = some i) :
    ∃ slot ∈ slots, slot.name = name ∧ ∃ k < slot.domain.size,
      (denotations slots binding)[i]? = some (.member slot.domain k) := by
  induction slots generalizing binding i with
  | nil => cases hi
  | cons slot slots ih =>
    -- there is a number for each slot
    obtain ⟨k, binding, rfl⟩ := List.exists_cons_of_length_eq_add_one hbinding.length_eq
    rw [List.findIdx?_cons] at hi
    split_ifs at hi with hname
    · cases hi
      exact ⟨slot, List.mem_cons_self, eq_of_beq hname, k, hbinding.1, rfl⟩
    · obtain ⟨j, hj, rfl⟩ := Option.map_eq_some_iff.mp hi
      obtain ⟨other, hother, hothername, k', hk', hget⟩ := ih hbinding.2 hj
      exact ⟨other, List.mem_cons_of_mem slot hother, hothername, k', hk', hget⟩

namespace Term

/-- A term without functions has a constant. -/
theorem exists_denote
    (hbinding : MixedRadix.IsNumeral (slots.map fun slot => slot.domain.size) binding) {t : Term}
    (hsimple : t.isSimple = true) {position : Option Domain} {a : ResolvedTerm}
    (ha : resolve e b slots t position = .ok a) :
    ∃ v, a.denote? (Slot.denotations slots binding) = some v := by
  cases t with
  | const c =>
    cases position with
    | some d =>
      rw [resolve] at ha
      split at ha <;> cases ha
      exact ⟨_, rfl⟩
    | none =>
      rw [resolve] at ha
      cases ha
      exact ⟨_, rfl⟩
  | var v =>
    rw [resolve] at ha
    split at ha
    · rename_i i hi
      cases ha
      obtain ⟨slot, -, -, k, -, hget⟩ := Slot.exists_member hbinding hi
      exact ⟨_, hget⟩
    · cases ha
  | app f as => cases hsimple

/-- At a position with a domain, it is a constant of that domain. -/
theorem denote_eq_member {ds : Domains} (hslots : ∀ slot ∈ slots, slot.domain ∈ ds.all)
    (hbinding : MixedRadix.IsNumeral (slots.map fun slot => slot.domain.size) binding) {t : Term}
    (hsimple : t.isSimple = true) {d : Domain} (hd : d ∈ ds.all) {s : Schema}
    (hsuit : Slot.Suit slots (t.placed s (some d.name))) {a : ResolvedTerm}
    (ha : resolve e b slots t (some d) = .ok a) :
    ∃ k < d.size, a.denote? (Slot.denotations slots binding) = some (.member d k) := by
  cases t with
  | const c =>
    rw [resolve] at ha
    split at ha
    · rename_i k hk
      cases ha
      exact ⟨k, Domain.symbol?_lt (Domain.indexOf?_eq_some_iff.mp hk), rfl⟩
    · cases ha
  | var v =>
    rw [resolve] at ha
    split at ha
    · rename_i i hi
      cases ha
      obtain ⟨slot, hslot, hname, k, hk, hget⟩ := Slot.exists_member hbinding hi
      -- the slot has the domain of the position, by name
      have hposition : (v, some d.name) ∈ (Term.var v).placed s (some d.name) := by
        rw [placed]
        exact List.mem_singleton_self _
      have hdomain := hsuit _ hposition slot hslot hname d.name rfl
      obtain rfl := Domains.eq_of_name_eq (hslots slot hslot) hd hdomain
      exact ⟨k, hk, hget⟩
    · cases ha
  | app f as => cases hsimple

/-- Terms without functions have constants. -/
theorem exists_symbols
    (hbinding : MixedRadix.IsNumeral (slots.map fun slot => slot.domain.size) binding)
    {as : List Term} (hsimple : ∀ a ∈ as, a.isSimple = true) {positions : List (Option Domain)}
    {rs : List ResolvedTerm} (hrs : resolveAll e b slots as positions = .ok rs) :
    ∃ symbols, ResolvedTerm.symbols? (Slot.denotations slots binding) rs = some symbols := by
  induction as generalizing positions rs with
  | nil =>
    rw [resolveAll] at hrs
    · cases hrs
      exact ⟨[], rfl⟩
    · exact fun _ _ _ _ heq => absurd heq.symm (List.cons_ne_nil _ _)
  | cons a as ih =>
    cases positions with
    | nil =>
      rw [resolveAll] at hrs
      · cases hrs
        exact ⟨[], rfl⟩
      · exact fun _ _ _ _ _ heq => absurd heq.symm (List.cons_ne_nil _ _)
    | cons position positions =>
      rw [resolveAll] at hrs
      obtain ⟨r, hr, hrs⟩ := Except.bind_eq_ok_iff.mp hrs
      obtain ⟨rest, hrest, rfl⟩ := Except.map_eq_ok_iff.mp hrs
      obtain ⟨v, hv⟩ := exists_denote hbinding (hsimple a List.mem_cons_self) hr
      obtain ⟨symbols, hsymbols⟩ :=
        ih (fun t ht => hsimple t (List.mem_cons_of_mem a ht)) hrest
      exact ⟨v.symbol :: symbols, by rw [ResolvedTerm.symbols?, hv, hsymbols]; rfl⟩

/-- At positions with domains, these have numbers there. -/
theorem exists_indices {ds : Domains} (hslots : ∀ slot ∈ slots, slot.domain ∈ ds.all)
    (hbinding : MixedRadix.IsNumeral (slots.map fun slot => slot.domain.size) binding)
    {as : List Term} (hsimple : ∀ a ∈ as, a.isSimple = true) {positions : List Domain}
    (hpositions : ∀ d ∈ positions, d ∈ ds.all) (hlength : as.length = positions.length) {s : Schema}
    (hsuit : Slot.Suit slots (placedAll s as (positions.map fun d => some d.name)))
    {rs : List ResolvedTerm} (hrs : resolveAll e b slots as (positions.map some) = .ok rs) :
    ∃ indices,
      ResolvedTerm.indices? (Slot.denotations slots binding) rs positions = some indices ∧
        MixedRadix.IsNumeral (positions.map Domain.size) indices := by
  induction as generalizing positions rs with
  | nil =>
    obtain rfl := List.eq_nil_of_length_eq_zero hlength.symm
    rw [resolveAll] at hrs
    · cases hrs
      exact ⟨[], rfl, trivial⟩
    · exact fun _ _ _ _ heq => absurd heq.symm (List.cons_ne_nil _ _)
  | cons a as ih =>
    obtain ⟨d, positions, rfl⟩ := List.exists_cons_of_length_eq_add_one hlength.symm
    rw [List.map_cons, resolveAll] at hrs
    obtain ⟨r, hr, hrs⟩ := Except.bind_eq_ok_iff.mp hrs
    obtain ⟨rest, hrest, rfl⟩ := Except.map_eq_ok_iff.mp hrs
    rw [List.map_cons, placedAll] at hsuit
    obtain ⟨k, hk, hdenote⟩ := denote_eq_member hslots hbinding (hsimple a List.mem_cons_self)
      (hpositions d List.mem_cons_self) (fun x hx => hsuit x (List.mem_append_left _ hx)) hr
    obtain ⟨indices, hindices, hnumeral⟩ := ih
      (fun t ht => hsimple t (List.mem_cons_of_mem a ht))
      (fun d' hd' => hpositions d' (List.mem_cons_of_mem d hd')) (by simpa using hlength)
      (fun x hx => hsuit x (List.mem_append_right _ hx)) hrest
    have hindex : (.member d k : Denotation).indexIn? d = some k := if_pos rfl
    refine ⟨k :: indices, ?_, hk, hnumeral⟩
    rw [ResolvedTerm.indices?, hdenote]
    show ((.member d k : Denotation).indexIn? d).bind _ = _
    rw [hindex, hindices]
    rfl

end Term

/-! ### Literals and restrictions -/

variable {l : Layout}

/-- Every atom of a literal without functions has an id. -/
theorem Literal.exists_id (h : e.IsStoreOf l) (hl : l.IsComplete)
    (hslots : ∀ slot ∈ slots, slot.domain ∈ l.domains.all)
    (hbinding : MixedRadix.IsNumeral (slots.map fun slot => slot.domain.size) binding)
    {literal : Literal} (hsimple : ∀ t ∈ literal.arguments, t.isSimple = true) {s : Schema}
    (hsuit : Slot.Suit slots
      (Term.placedAll s literal.arguments (l.argumentDomains literal.signature)))
    {positive : Bool} {table : FactTable} {as : List ResolvedTerm}
    (hr : literal.resolve e b slots = .ok (.atom positive table as)) :
    ∃ indices id,
      ResolvedTerm.indices? (Slot.denotations slots binding) as table.block.domains =
        some indices ∧
      MixedRadix.IsNumeral table.block.radices indices ∧
        table.block.encodeIndices indices = some id := by
  rw [resolve] at hr
  split at hr
  · rename_i t ht
    obtain ⟨rs, hrs, heq⟩ := Except.map_eq_ok_iff.mp hr
    cases heq
    obtain ⟨hmem, hsignature⟩ := Evidence.mem_of_table? ht
    -- arguments are resolved at the domains of the block, which are those of the positions
    have hblock := h.block_mem hmem
    have hpositions : l.argumentDomains literal.signature =
        table.block.domains.map fun d => some d.name := by
      rw [Layout.argumentDomains, h.block?_eq, ht]
      rfl
    have hlength : literal.arguments.length = table.block.domains.length := by
      rw [hl.length_domains hblock, hsignature]
      rfl
    rw [hpositions] at hsuit
    obtain ⟨indices, hindices, hnumeral⟩ := Term.exists_indices hslots hbinding hsimple
      (fun d hd => hl.mem_all hblock hd) hlength hsuit hrs
    obtain ⟨id, hid⟩ := Block.exists_encodeIndices (hl.positional _ hblock)
      ((hl.tiles.bounds hl.positional).2 _ hblock).1 (hl.stop_le _ hblock) hnumeral
    exact ⟨indices, id, hindices, hnumeral, hid⟩
  · split at hr
    · obtain ⟨rs, -, heq⟩ := Except.map_eq_ok_iff.mp hr
      cases heq
    · cases hr

/-- No literal without functions is undefined. -/
theorem Literal.isDefined_of_resolve (h : e.IsStoreOf l) (hl : l.IsComplete)
    (hslots : ∀ slot ∈ slots, slot.domain ∈ l.domains.all)
    (hbinding : MixedRadix.IsNumeral (slots.map fun slot => slot.domain.size) binding)
    {literal : Literal} (hsimple : ∀ t ∈ literal.arguments, t.isSimple = true) {s : Schema}
    (hsuit : Slot.Suit slots
      (Term.placedAll s literal.arguments (l.argumentDomains literal.signature)))
    {r : ResolvedLiteral} (hr : literal.resolve e b slots = .ok r) :
    r.isDefined (Slot.denotations slots binding) = true := by
  cases r with
  | atom positive table as =>
    obtain ⟨indices, id, hindices, -, hid⟩ := exists_id h hl hslots hbinding hsimple hsuit hr
    rw [ResolvedLiteral.isDefined, ResolvedLiteral.groundAtom?, hindices, Option.bind_some, hid]
    rfl
  | computed positive test as =>
    rw [resolve] at hr
    split at hr
    · obtain ⟨rs, -, heq⟩ := Except.map_eq_ok_iff.mp hr
      cases heq
    · split at hr
      · obtain ⟨rs, hrs, heq⟩ := Except.map_eq_ok_iff.mp hr
        cases heq
        obtain ⟨symbols, hsymbols⟩ := Term.exists_symbols hbinding hsimple hrs
        rw [ResolvedLiteral.isDefined, hsymbols]
        rfl
      · cases hr

theorem isBlocked_eq_false {literals : List ResolvedLiteral} {constants : List Denotation}
    (h : ∀ r ∈ literals, r.isDefined constants = true) : isBlocked constants literals = false := by
  induction literals with
  | nil => rfl
  | cons r literals ih =>
    rw [isBlocked_cons, h r List.mem_cons_self,
      ih fun other hother => h other (List.mem_cons_of_mem r hother), Bool.and_false]
    rfl

/-- A restriction without functions compares two constants. -/
theorem Restriction.isMet_eq_false_iff (h : e.IsStoreOf l) (hl : l.IsDeclared)
    (hslots : ∀ slot ∈ slots, slot.domain ∈ l.domains.all)
    (hbinding : MixedRadix.IsNumeral (slots.map fun slot => slot.domain.size) binding)
    {restriction : Restriction}
    (hsimple : restriction.left.isSimple = true ∧ restriction.right.isSimple = true)
    {r : ResolvedRestriction} (hr : restriction.resolve e b slots = .ok r) :
    r.isMet (Slot.denotations slots binding) = false ↔
      ∃ s t, restriction.left.symbol? e b (Slot.substitution slots binding) = some s ∧
        restriction.right.symbol? e b (Slot.substitution slots binding) = some t ∧
        ¬ (restriction.equal = true ↔ s = t) := by
  have hmet := isMet_eq h hl hslots hbinding hr
  obtain ⟨left, hleft, hr⟩ := Except.bind_eq_ok_iff.mp hr
  obtain ⟨right, hright, -⟩ := Except.bind_eq_ok_iff.mp hr
  obtain ⟨v, hv⟩ := Term.exists_denote hbinding hsimple.1 hleft
  obtain ⟨w, hw⟩ := Term.exists_denote hbinding hsimple.2 hright
  have hs := (Term.denotes_of_resolve h hl hslots hbinding _ none left nofun hleft).symbol_eq
  have ht := (Term.denotes_of_resolve h hl hslots hbinding _ none right nofun hright).symbol_eq
  rw [hv] at hs
  rw [hw] at ht
  rw [hmet, isMet, ← hs, ← ht]
  simp only [Option.map_some, Option.some.injEq]
  cases restriction.equal <;> simp

end Terms

/-! ### Clauses -/

namespace Clause

variable {α : Type} {c : Clause α}

/-- A substitution of a clause without functions is skipped just if a restriction compares two
constants to the contrary, and all atoms under it have ids, computed from numbers in the domains of
their arguments. -/
theorem skipped_iff_of_isFunctionFree {schema : Schema} {domains : Domains} {l : Layout}
    {a : Assumptions} {facts : List Fact} {values : List FunctionValue} {e : Evidence}
    (hl : Layout.build schema domains = .ok l)
    (hstop : ∀ b ∈ l.blocks, b.stop.toNat ≤ 2147483648)
    (he : Evidence.build l a facts values = .ok e) (calls : List Evidence.Call) {b : Builtins}
    (hfree : c.IsFunctionFree) {r : ResolvedClause} (hr : c.resolve (e.after calls) b = .ok r)
    {binding : List Nat} (hbinding : MixedRadix.IsNumeral r.radices binding) :
    (r.outcome binding = .skipped ↔ ∃ restriction ∈ c.restrictions, ∃ s t,
      restriction.left.symbol? (e.after calls) b (r.describe binding) = some s ∧
      restriction.right.symbol? (e.after calls) b (r.describe binding) = some t ∧
      ¬ (restriction.equal = true ↔ s = t)) ∧
    ∀ positive table as, .atom positive table as ∈ r.literals → ∃ indices id,
      ResolvedTerm.indices? (r.denotations binding) as table.block.domains = some indices ∧
      MixedRadix.IsNumeral table.block.radices indices ∧
        table.block.encodeIndices indices = some id := by
  have hcomplete := Layout.isComplete_of_build hl hstop
  have hstore := Evidence.isStoreOf_after_build hcomplete.toIsDeclared he calls
  have hsuit := suit_of_resolve (hstore.layout_eq ▸ hl) hr
  obtain ⟨slots, hslots, hr⟩ := Except.bind_eq_ok_iff.mp hr
  obtain ⟨literals, hliterals, hr⟩ := Except.bind_eq_ok_iff.mp hr
  obtain ⟨restrictions, hrestrictions, hr⟩ := Except.bind_eq_ok_iff.mp hr
  cases hr
  rw [hstore.layout_eq] at hslots
  rw [Except.mapError_eq_ok_iff] at hliterals hrestrictions
  have hdomains := (slots_eq_ok hslots).2
  have hpositions : ∀ literal ∈ c.literals, Slot.Suit slots
      (Term.placedAll schema literal.arguments (l.argumentDomains literal.signature)) := by
    intro literal hliteral x hx
    rw [Layout.argumentDomains_eq hl] at hx
    exact hsuit x (List.mem_append_left _ (List.mem_flatMap.mpr ⟨literal, hliteral, hx⟩))
  refine ⟨?_, fun positive table as hmem => ?_⟩
  -- no literal blocks, so that only restrictions are left to skip
  · have hdefined : isBlocked (Slot.denotations slots binding) literals = false := by
      refine isBlocked_eq_false fun g hg => ?_
      obtain ⟨literal, hliteral, hg⟩ := Except.exists_of_mem_of_mapM_eq_ok hliterals hg
      exact literal.isDefined_of_resolve hstore hcomplete hdomains hbinding
        (hfree.arguments literal hliteral) (hpositions literal hliteral) hg
    rw [ResolvedClause.outcome_eq_skipped_iff, ResolvedClause.skips]
    show (!(restrictions.all fun g => g.isMet (Slot.denotations slots binding)) ||
      isBlocked (Slot.denotations slots binding) literals) = true ↔ _
    rw [hdefined, Bool.or_false, Bool.not_eq_true', List.all_eq_false]
    simp only [Bool.not_eq_true]
    constructor
    · rintro ⟨g, hg, hmet⟩
      obtain ⟨restriction, hmem, hg⟩ := Except.exists_of_mem_of_mapM_eq_ok hrestrictions hg
      exact ⟨restriction, hmem, (Restriction.isMet_eq_false_iff hstore hcomplete.toIsDeclared
        hdomains hbinding (hfree.sides restriction hmem) hg).mp hmet⟩
    · rintro ⟨restriction, hmem, hdiffer⟩
      obtain ⟨g, hg, hresolve⟩ := Except.exists_mem_of_mapM_eq_ok hrestrictions hmem
      exact ⟨g, hg, (Restriction.isMet_eq_false_iff hstore hcomplete.toIsDeclared
        hdomains hbinding (hfree.sides restriction hmem) hresolve).mpr hdiffer⟩
  · obtain ⟨literal, hliteral, hg⟩ := Except.exists_of_mem_of_mapM_eq_ok hliterals hmem
    exact literal.exists_id hstore hcomplete hdomains hbinding (hfree.arguments literal hliteral)
      (hpositions literal hliteral) hg

end Clause

/-! #### Plans between two days -/

namespace Layout.Calendar

/-- If it rains on a day, there is a plan between it and any other. -/
def outing : Clause Float where
  index := 2
  weight := .hard
  literals := [⟨false, "Rain", [.var ⟨"x", none⟩]⟩,
    ⟨true, "Plan", [.var ⟨"x", none⟩, .var ⟨"y", none⟩]⟩]
  restrictions := [⟨false, .var ⟨"x", none⟩, .var ⟨"y", none⟩⟩]

theorem isFunctionFree_outing : outing.IsFunctionFree where
  arguments := by simp [outing, Term.isSimple]
  sides := by simp [outing, Term.isSimple]

theorem exists_resolved_outing : ∃ r, outing.resolve (evidence.after doubtful) .standard = .ok r ∧
    r.radices = [day.size, day.size] ∧
    ∀ i j, r.describe [i, j] = [("x", day.symbol i), ("y", day.symbol j)] :=
  ⟨_, rfl, rfl, fun _ _ => rfl⟩

/-- Just the substitutions of a day for both variables are skipped. -/
theorem skipped_iff_of_isFunctionFree_calendar : build schema domains = .ok layout ∧
    (∀ b ∈ layout.blocks, b.stop.toNat ≤ 2147483648) ∧
    Evidence.build layout assumptions facts values = .ok evidence ∧ outing.IsFunctionFree ∧
    ∃ r, outing.resolve (evidence.after doubtful) .standard = .ok r ∧
      ∀ i < 2, ∀ j < 2, MixedRadix.IsNumeral r.radices [i, j] ∧
        (r.outcome [i, j] = .skipped ↔ i = j) ∧
        ∀ positive table as, .atom positive table as ∈ r.literals → ∃ indices id,
          ResolvedTerm.indices? (r.denotations [i, j]) as table.block.domains = some indices ∧
            table.block.encodeIndices indices = some id := by
  obtain ⟨r, hr, hradices, hdescribe⟩ := exists_resolved_outing
  refine ⟨build_eq, stop_le, build_evidence, isFunctionFree_outing, r, hr, fun i hi j hj => ?_⟩
  have hbinding : MixedRadix.IsNumeral r.radices [i, j] := by
    rw [hradices, size_day]
    exact ⟨hi, hj, trivial⟩
  obtain ⟨hskipped, hatoms⟩ := Clause.skipped_iff_of_isFunctionFree build_eq stop_le build_evidence
    doubtful isFunctionFree_outing hr hbinding
  refine ⟨hbinding, ?_, fun positive table as hmem => ?_⟩
  · rw [hskipped, hdescribe]
    have hsame : day.symbol i = day.symbol j ↔ i = j :=
      Domain.symbol_inj (size_day ▸ hi) (size_day ▸ hj)
    simp [outing, Term.symbol?, Substitution.symbol?, hsame]
  · obtain ⟨indices, id, hindices, -, hid⟩ := hatoms positive table as hmem
    exact ⟨indices, id, hindices, hid⟩

end Layout.Calendar

end LogicNetwork
