import LogicNetwork.Proofs.Grounding.Agreement
import LogicNetwork.Proofs.Grounding.Faults

/-!
# What variables range over

Every occurrence of a variable in a clause stands at a position, and positions of declared
predicates and functions have domains (`Clause.placed`).  The typing of a clause is one left fold
over them (`Clause.typing_eq`), and what a variable ranges over at its end is what it ranged over at
the beginning or the domain of some position of it (`Typing.domain?_placeAll`), in whatever order
the positions come; two positions with different domains are a conflict.

So the slot of a variable has the domain of each declared position that the variable stands at, and
only variables without one can be left without a domain (`Clause.slot_of_resolve`).  Annotations are
another matter: those of first occurrences are respected in the same way, but those of later
occurrences are not read (`Layout.Calendar.missingDomain_of_later_annotation`).
-/

namespace LogicNetwork

/-! ### First occurrences -/

theorem mem_of_mem_firstOccurrences {seen : List String} {vs : List Variable}
    {v : Variable} (h : v ∈ firstOccurrences seen vs) : v ∈ vs := by
  induction vs generalizing seen with
  | nil => cases h
  | cons w vs ih =>
    rw [firstOccurrences] at h
    split at h
    · exact List.mem_cons_of_mem w (ih h)
    · rcases List.mem_cons.mp h with rfl | h
      · exact List.mem_cons_self
      · exact List.mem_cons_of_mem w (ih h)

theorem name_notMem_of_mem_firstOccurrences {seen : List String} {vs : List Variable} {v : Variable}
    (h : v ∈ firstOccurrences seen vs) : v.name ∉ seen := by
  induction vs generalizing seen with
  | nil => cases h
  | cons w vs ih =>
    rw [firstOccurrences] at h
    split at h
    · exact ih h
    · rename_i hfresh
      rcases List.mem_cons.mp h with rfl | h
      · simpa using hfresh
      · exact fun hseen => ih h (List.mem_cons_of_mem w.name hseen)

theorem nodup_firstOccurrences (seen : List String) (vs : List Variable) :
    ((firstOccurrences seen vs).map Variable.name).Nodup := by
  induction vs generalizing seen with
  | nil => exact List.nodup_nil
  | cons w vs ih =>
    rw [firstOccurrences]
    split
    · exact ih seen
    · rw [List.map_cons, List.nodup_cons]
      refine ⟨fun hmem => ?_, ih (w.name :: seen)⟩
      obtain ⟨v, hv, hname⟩ := List.mem_map.mp hmem
      exact name_notMem_of_mem_firstOccurrences hv (hname ▸ List.mem_cons_self)

/-- Every name that has not been seen has its first occurrence. -/
theorem exists_firstOccurrence {seen : List String} {vs : List Variable} {v : Variable}
    (hv : v ∈ vs) (hfresh : v.name ∉ seen) :
    ∃ w ∈ firstOccurrences seen vs, w.name = v.name := by
  induction vs generalizing seen with
  | nil => cases hv
  | cons w vs ih =>
    rw [firstOccurrences]
    by_cases hname : w.name = v.name
    · have hseen : ¬ seen.contains w.name = true := by
        rw [hname]
        simpa using hfresh
      rw [if_neg hseen]
      exact ⟨w, List.mem_cons_self, hname⟩
    · have hrest : v ∈ vs := by
        rcases List.mem_cons.mp hv with rfl | hv
        · exact absurd rfl hname
        · exact hv
      split
      · exact ih hrest hfresh
      · have hfresh' : v.name ∉ w.name :: seen :=
          List.not_mem_cons_of_ne_of_not_mem (Ne.symm hname) hfresh
        obtain ⟨u, hu, huname⟩ := ih hrest hfresh'
        exact ⟨u, List.mem_cons_of_mem w hu, huname⟩

/-! ### Positions -/

/-- The domain names of the arguments of a predicate, where it is declared. -/
def Schema.tableDomains (s : Schema) (signature : Signature) : List (Option String) :=
  match s.tables.find? fun p => p.signature == signature with
  | some p => p.domains.map some
  | none => List.replicate signature.arity none

theorem Schema.length_tableDomains (s : Schema) (signature : Signature) :
    (s.tableDomains signature).length = signature.arity := by
  unfold tableDomains
  split
  · rename_i p hp
    have hsignature : p.signature = signature := by simpa using List.find?_some hp
    rw [← hsignature, List.length_map]
    rfl
  · exact List.length_replicate

theorem Schema.length_argumentDomains (s : Schema) (signature : Signature) :
    (s.argumentDomains signature).length = signature.arity := by
  unfold argumentDomains
  split
  · rename_i decl hdecl
    have hsignature : decl.signature = signature := by simpa using List.find?_some hdecl
    rw [← hsignature, List.length_map]
    rfl
  · exact List.length_replicate

theorem Layout.eq_of_build {schema : Schema} {domains : Domains} {l : Layout}
    (hl : build schema domains = .ok l) : l.schema = schema ∧ l.domains = domains := by
  obtain ⟨⟨⟩, -, hl⟩ := Except.bind_eq_ok_iff.mp hl
  obtain ⟨blocks, -, hl⟩ := Except.bind_eq_ok_iff.mp hl
  cases hl
  exact ⟨rfl, rfl⟩

/-- Blocks have the domains of their declarations. -/
theorem Layout.argumentDomains_eq {schema : Schema} {domains : Domains} {l : Layout}
    (hl : build schema domains = .ok l) (s : Signature) :
    l.argumentDomains s = schema.tableDomains s := by
  have hdeclared := isDeclared_of_build hl
  obtain ⟨⟨⟩, hvalid, hl⟩ := Except.bind_eq_ok_iff.mp hl
  obtain ⟨blocks, -, hl⟩ := Except.bind_eq_ok_iff.mp hl
  cases hl
  rw [argumentDomains, Schema.tableDomains]
  cases htable : schema.tables.find? fun p => p.signature == s with
  | some p =>
    have hp := List.mem_of_find?_eq_some htable
    have hs : p.signature = s := by simpa using List.find?_some htable
    obtain ⟨b, hb, hsignature, hdomains⟩ := hdeclared.exists_block hp
    have hblock := find?_key_eq_some hdeclared.nodup_blocks hb
    rw [hsignature, hs] at hblock
    have hnames : b.domains.map (fun d => some d.name) = p.domains.map some := by
      rw [hdomains, List.map_map]
      refine List.map_congr_left fun name hname => ?_
      obtain ⟨d, hd⟩ := Schema.exists_get?_of_checkTables hvalid hp hname
      rw [Function.comp_apply, Domains.getOrEmpty_eq hd, (Domains.get?_eq_some hd).2]
    rw [block?, hblock]
    exact hnames
  | none =>
    have hblock : block? ⟨schema, domains, blocks⟩ s = none := by
      refine List.find?_eq_none.mpr fun b hb heq => ?_
      obtain ⟨p, hp, hsignature, -⟩ := hdeclared.exists_declaration hb
      refine List.find?_eq_none.mp htable p hp ?_
      rwa [hsignature]
    rw [hblock]

namespace Term

mutual

/-- The occurrences of variables in a term that stands at a position, each with the domain name of
the position that it stands at itself. -/
def placed (s : Schema) : Term → Option String → List (Variable × Option String)
  | const _, _ => []
  | var v, position => [(v, position)]
  | app f as, _ => placedAll s as (s.argumentDomains ⟨f, as.length⟩)

/-- The occurrences of variables in terms that stand at positions. -/
def placedAll (s : Schema) : List Term → List (Option String) → List (Variable × Option String)
  | a :: as, p :: ps => placed s a p ++ placedAll s as ps
  | _, _ => []

end

mutual

theorem map_fst_placed (s : Schema) : ∀ (t : Term) (position : Option String),
    (placed s t position).map Prod.fst = t.freeVariables
  | const _, _ => by
    rw [placed, freeVariables, List.map_nil]
  | var v, _ => by
    rw [placed, freeVariables, List.map_singleton]
  | app f as, _ => by
    rw [placed, freeVariables, map_fst_placedAll s as _ (s.length_argumentDomains _)]

theorem map_fst_placedAll (s : Schema) : ∀ (as : List Term) (positions : List (Option String)),
    positions.length = as.length →
      (placedAll s as positions).map Prod.fst = freeVariablesOfAll as
  | [], _, _ => by
    rw [placedAll, freeVariablesOfAll, List.map_nil]
    exact fun _ _ _ _ heq => nomatch heq
  | _ :: _, [], hlength => by cases hlength
  | a :: as, p :: ps, hlength => by
    rw [placedAll, freeVariablesOfAll, List.map_append, map_fst_placed s a p,
      map_fst_placedAll s as ps (by simpa using hlength)]

end

end Term

namespace Clause

variable {α : Type}

/-- Every occurrence of a variable in a clause, in reading order, with the domain name of its
position if that is declared. -/
def placed (c : Clause α) (s : Schema) : List (Variable × Option String) :=
  c.literals.flatMap (fun literal =>
      Term.placedAll s literal.arguments (s.tableDomains literal.signature)) ++
    c.restrictions.flatMap fun r => r.left.placed s none ++ r.right.placed s none

/-- No occurrence is left out. -/
theorem map_fst_placed_eq_occurrences (c : Clause α) (s : Schema) :
    (c.placed s).map Prod.fst = c.occurrences := by
  rw [placed, occurrences, List.map_append, List.map_flatMap, List.map_flatMap]
  congr 1
  · refine List.flatMap_congr fun literal _ => ?_
    exact Term.map_fst_placedAll s _ _ (s.length_tableDomains _)
  · refine List.flatMap_congr fun r _ => ?_
    rw [List.map_append, Term.map_fst_placed, Term.map_fst_placed]

end Clause

/-! ### Typing -/

namespace Typing

/-- Whether a typing keeps the domains of another one, and gives occurrences the domains of their
positions. -/
structure Follows (types next : Typing) (xs : List (Variable × Option String)) : Prop where
  keeps : ∀ name d, types.domain? name = some d → next.domain? name = some d
  gives : ∀ x ∈ xs, ∀ d, x.2 = some d → next.domain? x.1.name = some d

variable {clause : Nat} {types next : Typing} {x : Variable × Option String}
  {xs ys : List (Variable × Option String)}

theorem domain?_cons (types : Typing) (name d other : String) :
    domain? ((name, d) :: types) other = if name = other then some d else types.domain? other := by
  by_cases h : name = other <;> simp [domain?, h]

/-- Variables with names of their own have the domains that they are annotated with. -/
theorem domain?_filterMap {vs : List Variable} (hnodup : (vs.map Variable.name).Nodup)
    {v : Variable} (hv : v ∈ vs) :
    domain? (vs.filterMap fun v => v.domain.map fun d => (v.name, d)) v.name = v.domain := by
  induction vs with
  | nil => cases hv
  | cons w vs ih =>
    rcases List.mem_cons.mp hv with rfl | hv
    · cases hdomain : v.domain with
      | some d => rw [List.filterMap_cons_some (by rw [hdomain]; rfl), domain?_cons, if_pos rfl]
      | none =>
        -- no other variable has the name
        rw [List.filterMap_cons_none (by rw [hdomain]; rfl), domain?, Option.map_eq_none_iff,
          List.find?_eq_none]
        intro entry hentry heq
        obtain ⟨u, hu, hentry⟩ := List.mem_filterMap.mp hentry
        obtain ⟨d, -, rfl⟩ := Option.map_eq_some_iff.mp hentry
        exact key_ne_of_nodup_cons hnodup hu (eq_of_beq heq).symm
    · have hne := key_ne_of_nodup_cons hnodup hv
      have hrest := ih (List.nodup_cons.mp hnodup).2 hv
      cases hdomain : w.domain with
      | some d =>
        rw [List.filterMap_cons_some (by rw [hdomain]; rfl), domain?_cons, if_neg hne, hrest]
      | none => rw [List.filterMap_cons_none (by rw [hdomain]; rfl), hrest]

/-! #### Position by position -/

/-- Types a variable that stands at a position, if the position is declared. -/
def place (clause : Nat) (types : Typing) (x : Variable × Option String) :
    Except GroundingError Typing :=
  match x.2 with
  | some domain => types.assign clause x.1.name domain
  | none => .ok types

/-- Types variables that stand at positions, one after the other. -/
def placeAll (clause : Nat) (xs : List (Variable × Option String)) (types : Typing) :
    Except GroundingError Typing :=
  xs.foldlM (place clause) types

theorem placeAll_append : placeAll clause (xs ++ ys) types =
    placeAll clause xs types >>= placeAll clause ys :=
  List.foldlM_append

/-- After a position, a variable ranges over what it ranged over before, or over the domain of the
position if it stands there. -/
theorem domain?_place (h : place clause types x = .ok next) (name d : String) :
    next.domain? name = some d ↔
      types.domain? name = some d ∨ x.1.name = name ∧ x.2 = some d := by
  obtain ⟨v, position⟩ := x
  cases position with
  | none =>
    cases h
    simp
  | some domain =>
    change types.assign clause v.name domain = .ok next at h
    unfold assign at h
    split at h
    · rename_i first hfirst
      split at h
      · rename_i heq
        cases h
        rw [heq] at hfirst
        constructor
        · exact .inl
        · rintro (hd | ⟨rfl, hd⟩)
          · exact hd
          · exact hfirst.trans hd
      · cases h
    · rename_i hnone
      cases h
      rw [domain?_cons]
      by_cases hname : v.name = name
      · rw [← hname, hnone, if_pos rfl]
        simp
      · simp [hname]

/-- A variable can be placed where it ranges over no other domain. -/
theorem exists_place (clause : Nat) {goal : String → Option String}
    (hkeeps : ∀ name d, types.domain? name = some d → goal name = some d)
    (hgives : ∀ d, x.2 = some d → goal x.1.name = some d) :
    ∃ next, place clause types x = .ok next := by
  obtain ⟨v, position⟩ := x
  cases position with
  | none => exact ⟨types, rfl⟩
  | some domain =>
    show ∃ next, types.assign clause v.name domain = .ok next
    unfold assign
    split
    · rename_i first hfirst
      have hsame := (hkeeps v.name first hfirst).symm.trans (hgives domain rfl)
      rw [if_pos (Option.some.inj hsame)]
      exact ⟨types, rfl⟩
    · exact ⟨_, rfl⟩

/-- After all positions, a variable ranges over what it ranged over before or over the domain of
some position of it. -/
theorem domain?_placeAll (h : placeAll clause xs types = .ok next) (name d : String) :
    next.domain? name = some d ↔
      types.domain? name = some d ∨ ∃ x ∈ xs, x.1.name = name ∧ x.2 = some d := by
  induction xs generalizing types with
  | nil =>
    cases h
    simp
  | cons x xs ih =>
    obtain ⟨middle, hmiddle, h⟩ := Except.bind_eq_ok_iff.mp h
    rw [ih h, domain?_place hmiddle, List.exists_mem_cons_iff, or_assoc]

/-- Variables can be placed where one domain for each of them is the one of all its positions. -/
theorem exists_placeAll (clause : Nat) {goal : String → Option String}
    (hkeeps : ∀ name d, types.domain? name = some d → goal name = some d)
    (hgives : ∀ x ∈ xs, ∀ d, x.2 = some d → goal x.1.name = some d) :
    ∃ next, placeAll clause xs types = .ok next := by
  induction xs generalizing types with
  | nil => exact ⟨types, rfl⟩
  | cons x xs ih =>
    rw [List.forall_mem_cons] at hgives
    obtain ⟨middle, hmiddle⟩ := exists_place clause hkeeps hgives.1
    have hkept : ∀ name d, middle.domain? name = some d → goal name = some d := by
      intro name d hd
      rcases (domain?_place hmiddle name d).mp hd with hbefore | ⟨rfl, hposition⟩
      · exact hkeeps name d hbefore
      · exact hgives.1 d hposition
    obtain ⟨next, hnext⟩ := ih hkept hgives.2
    exact ⟨next, Except.bind_eq_ok_iff.mpr ⟨middle, hmiddle, hnext⟩⟩

end Typing

namespace Term

mutual

/-- Typing a term is placing its variables, in reading order. -/
theorem infer_eq (s : Schema) (clause : Nat) : ∀ (t : Term) (position : Option String)
    (types : Typing), infer s clause t position types =
      Typing.placeAll clause (t.placed s position) types
  | const _, _, _ => by
    rw [infer, placed]
    rfl
  | var v, some d, types => by
    rw [infer, placed]
    exact (bind_pure (types.assign clause v.name d)).symm
  | var _, none, _ => by
    rw [infer, placed]
    rfl
  | app f as, _, types => by
    rw [infer, placed, inferAll_eq s clause as]

theorem inferAll_eq (s : Schema) (clause : Nat) : ∀ (as : List Term)
    (positions : List (Option String)) (types : Typing),
    inferAll s clause as positions types =
      Typing.placeAll clause (placedAll s as positions) types
  | [], _, _ => by
    rw [inferAll, placedAll]
    · rfl
    · exact fun _ _ _ _ heq => nomatch heq
    · exact fun _ _ _ _ heq => nomatch heq
  | _ :: _, [], _ => by
    rw [inferAll, placedAll]
    · rfl
    · exact fun _ _ _ _ _ heq => nomatch heq
    · exact fun _ _ _ _ _ heq => nomatch heq
  | a :: as, p :: ps, types => by
    rw [inferAll, placedAll, Typing.placeAll_append, infer_eq s clause a p]
    exact bind_congr fun next => inferAll_eq s clause as ps next

end

end Term

/-! ### Slots -/

namespace Clause

variable {α : Type} {c : Clause α}

/-- A typing starts with the annotations of first occurrences. -/
theorem domain?_annotations {v : Variable} (hv : v ∈ c.freeVariables) :
    c.annotations.domain? v.name = v.domain :=
  Typing.domain?_filterMap (nodup_firstOccurrences [] c.occurrences) hv

/-- The occurrences of variables in a clause, each with the domain name of its position if a layout
has one for it. -/
def positions (c : Clause α) (l : Layout) : List (Variable × Option String) :=
  c.literals.flatMap (fun literal =>
      Term.placedAll l.schema literal.arguments (l.argumentDomains literal.signature)) ++
    c.restrictions.flatMap fun r => r.left.placed l.schema none ++ r.right.placed l.schema none

/-- Typing a clause is placing all its variables. -/
theorem typing_eq (c : Clause α) (l : Layout) :
    c.typing l = Typing.placeAll c.index (c.positions l) c.annotations := by
  rw [positions, Typing.placeAll_append]
  unfold typing Typing.placeAll
  rw [Except.foldlM_eq_foldlM_flatMap fun types literal =>
    Term.inferAll_eq l.schema c.index literal.arguments _ types]
  refine bind_congr fun types => ?_
  rw [Except.foldlM_eq_foldlM_flatMap]
  intro types r
  exact ((bind_congr fun next => Term.infer_eq _ _ _ _ next).trans
    (by rw [Term.infer_eq]; exact Typing.placeAll_append.symm))

/-- A layout has domains for the declared positions. -/
theorem positions_eq_placed {schema : Schema} {domains : Domains} {l : Layout}
    (hl : Layout.build schema domains = .ok l) (c : Clause α) :
    c.positions l = c.placed schema := by
  rw [positions, placed, (Layout.eq_of_build hl).1]
  simp only [Layout.argumentDomains_eq hl]

/-- The typing of a clause keeps the annotations and follows the positions of all occurrences. -/
theorem follows_typing {schema : Schema} {domains : Domains} {l : Layout}
    (hl : Layout.build schema domains = .ok l) {types : Typing} (h : c.typing l = .ok types) :
    c.annotations.Follows types (c.placed schema) := by
  rw [typing_eq, positions_eq_placed hl] at h
  have hdomain := Typing.domain?_placeAll h
  exact ⟨fun name d hd => (hdomain name d).mpr (.inl hd),
    fun x hx d hd => (hdomain x.1.name d).mpr (.inr ⟨x, hx, rfl, hd⟩)⟩

/-- Resolving a clause types its variables first. -/
theorem slots_of_resolve {e : Evidence} {b : Builtins} {r : ResolvedClause}
    (h : c.resolve e b = .ok r) : c.slots e.layout = .ok r.slots := by
  obtain ⟨slots, hslots, h⟩ := Except.bind_eq_ok_iff.mp h
  obtain ⟨literals, -, h⟩ := Except.bind_eq_ok_iff.mp h
  obtain ⟨restrictions, -, h⟩ := Except.bind_eq_ok_iff.mp h
  cases h
  exact hslots

/-- Only typing leaves variables without a domain. -/
theorem exists_of_resolve_eq_missingDomain {e : Evidence} {b : Builtins} {k : Nat} {name : String}
    (h : c.resolve e b = .error (.missingDomain k name)) :
    k = c.index ∧ ∃ types, c.typing e.layout = .ok types ∧ types.domain? name = none := by
  rcases Except.bind_eq_error_iff.mp h with h | ⟨slots, -, h⟩
  · rcases Except.bind_eq_error_iff.mp h with h | ⟨types, htypes, h⟩
    · obtain ⟨_, _, _, hfault⟩ := eq_conflict_of_typing h
      cases hfault
    · obtain ⟨v, -, hv⟩ := Except.exists_of_mapM_eq_error h
      unfold slot at hv
      split at hv
      · rename_i hnone
        cases hv
        exact ⟨rfl, types, htypes, hnone⟩
      · split at hv <;> cases hv
  -- whatever is wrong with literals and restrictions, the clause is malformed
  · rcases Except.bind_eq_error_iff.mp h with h | ⟨literals, -, h⟩
    · obtain ⟨_, -, hfault⟩ := Except.mapError_eq_error_iff.mp h
      cases hfault
    · rcases Except.bind_eq_error_iff.mp h with h | ⟨restrictions, -, h⟩
      · obtain ⟨_, -, hfault⟩ := Except.mapError_eq_error_iff.mp h
        cases hfault
      · cases h

section Slots

variable {schema : Schema} {domains : Domains} {e : Evidence} {b : Builtins} {r : ResolvedClause}

/-- An occurrence of a variable has one slot, with the domain of the position and of the annotation
of the first occurrence. -/
theorem exists_slot (hl : Layout.build schema domains = .ok e.layout) (hr : c.resolve e b = .ok r)
    {x : Variable × Option String} (hx : x ∈ c.placed schema) :
    ∃ slot ∈ r.slots, slot.name = x.1.name ∧
      (∀ other ∈ r.slots, other.name = x.1.name → other = slot) ∧
      (∀ d, x.2 = some d → domains.get? d = some slot.domain) ∧
      (x.1 ∈ c.freeVariables → ∀ d, x.1.domain = some d → domains.get? d = some slot.domain) := by
  have hslots := slots_of_resolve hr
  obtain ⟨hnames, -⟩ := slots_eq_ok hslots
  obtain ⟨types, htypes, hslots⟩ := Except.bind_eq_ok_iff.mp hslots
  have hfollows := follows_typing hl htypes
  -- the first occurrence of the name has a slot
  have hoccurrence : x.1 ∈ c.occurrences :=
    c.map_fst_placed_eq_occurrences schema ▸ List.mem_map_of_mem hx
  obtain ⟨v, hv, hname⟩ := exists_firstOccurrence hoccurrence List.not_mem_nil
  obtain ⟨slot, hslot, hvslot⟩ := Except.exists_mem_of_mapM_eq_ok hslots hv
  obtain ⟨hslotname, d, hd, hdomain⟩ := slot_eq_ok hvslot
  rw [hname] at hslotname hd
  rw [(Layout.eq_of_build hl).2] at hdomain
  have hdomains : ∀ d', types.domain? x.1.name = some d' → domains.get? d' = some slot.domain := by
    intro d' hd'
    rw [hd] at hd'
    rwa [← Option.some.inj hd']
  refine ⟨slot, hslot, hslotname, fun other hother hothername => ?_, fun d' hd' => ?_,
    fun hfirst d' hd' => ?_⟩
  · have hnodup : (r.slots.map Slot.name).Nodup := hnames ▸ nodup_firstOccurrences [] c.occurrences
    exact List.inj_on_of_nodup_map hnodup hother hslot (hothername.trans hslotname.symm)
  · exact hdomains d' (hfollows.gives x hx d' hd')
  · exact hdomains d' (hfollows.keeps _ d' ((domain?_annotations hfirst).trans hd'))

/-- A variable that is left without a domain is not annotated at its first occurrence and stands at
no declared position. -/
theorem eq_none_of_missingDomain (hl : Layout.build schema domains = .ok e.layout) {k : Nat}
    {name : String} (h : c.resolve e b = .error (.missingDomain k name)) :
    k = c.index ∧ ∀ x ∈ c.placed schema, x.1.name = name →
      x.2 = none ∧ (x.1 ∈ c.freeVariables → x.1.domain = none) := by
  obtain ⟨hk, types, htypes, hnone⟩ := exists_of_resolve_eq_missingDomain h
  have hfollows := follows_typing hl htypes
  refine ⟨hk, fun x hx hname => ⟨?_, fun hfirst => ?_⟩⟩
  · refine Option.eq_none_iff_forall_ne_some.mpr fun d hd => ?_
    have hgiven := hfollows.gives x hx d hd
    rw [hname, hnone] at hgiven
    cases hgiven
  · refine Option.eq_none_iff_forall_ne_some.mpr fun d hd => ?_
    have hkept := hfollows.keeps _ d ((domain?_annotations hfirst).trans hd)
    rw [hname, hnone] at hkept
    cases hkept

/-- Every occurrence of a variable in a clause that is resolved has one slot.  Its domain is the one
of the position, if that is declared, and the one that the occurrence is annotated with, if this is
the annotation of the first occurrence.  Only variables with no declared position and no annotation
at their first occurrence are left without a domain. -/
theorem slot_of_resolve (hl : Layout.build schema domains = .ok e.layout) (c : Clause α)
    (b : Builtins) :
    (c.placed schema).map Prod.fst = c.occurrences ∧
      (∀ r, c.resolve e b = .ok r → ∀ x ∈ c.placed schema, ∃ slot ∈ r.slots,
        slot.name = x.1.name ∧ (∀ other ∈ r.slots, other.name = x.1.name → other = slot) ∧
        (∀ d, x.2 = some d → domains.get? d = some slot.domain) ∧
        (x.1 ∈ c.freeVariables → ∀ d, x.1.domain = some d → domains.get? d = some slot.domain)) ∧
      (∀ k name, c.resolve e b = .error (.missingDomain k name) →
        k = c.index ∧ ∀ x ∈ c.placed schema, x.1.name = name →
          x.2 = none ∧ (x.1 ∈ c.freeVariables → x.1.domain = none)) :=
  ⟨c.map_fst_placed_eq_occurrences schema, fun _ hr _ hx => exists_slot hl hr hx,
    fun _ _ h => eq_none_of_missingDomain hl h⟩

end Slots

end Clause

/-! #### Days with and without annotations -/

namespace Layout.Calendar

theorem slot_of_resolve_calendar : build schema domains = .ok (evidence.after doubtful).layout ∧
    ∃ r, clause.resolve (evidence.after doubtful) .standard = .ok r ∧
      (clause.placed schema).map Prod.fst = clause.occurrences ∧
      ∀ x ∈ clause.placed schema, ∃ slot ∈ r.slots, slot.name = x.1.name ∧
        ∀ d, x.2 = some d → domains.get? d = some slot.domain := by
  obtain ⟨r, hr, -⟩ := exists_resolved
  obtain ⟨hoccurrences, hslots, -⟩ :=
    Clause.slot_of_resolve (e := evidence.after doubtful) build_eq clause .standard
  refine ⟨build_eq, r, hr, hoccurrences, fun x hx => ?_⟩
  obtain ⟨slot, hslot, hname, -, hposition, -⟩ := hslots r hr x hx
  exact ⟨slot, hslot, hname, hposition⟩

/-- A day is Monday or Tuesday, but only Tuesday is said to be a day. -/
def lateAnnotation : Clause Float where
  index := 0
  weight := .soft 1
  literals := [⟨true, "equals", [.var ⟨"x", none⟩, .const "Monday"]⟩,
    ⟨true, "equals", [.var ⟨"x", some "day"⟩, .const "Tuesday"]⟩]
  restrictions := []

/-- It rains on a day that is called a night as well. -/
def strayAnnotation : Clause Float where
  index := 1
  weight := .soft 1
  literals := [⟨true, "Rain", [.var ⟨"x", some "day"⟩]⟩, ⟨true, "Rain", [.var ⟨"x", some "night"⟩]⟩]
  restrictions := []

/-- An annotated variable is left without a domain, and one that is annotated in two ways has a
slot. -/
theorem missingDomain_of_later_annotation : build schema domains = .ok evidence.layout ∧
    (∃ v ∈ lateAnnotation.occurrences, v.name = "x" ∧ v.domain = some "day") ∧
    lateAnnotation.resolve evidence .standard = .error (.missingDomain 0 "x") ∧
    (∃ v ∈ strayAnnotation.occurrences, v.name = "x" ∧ v.domain = some "night") ∧
    ∃ r, strayAnnotation.resolve evidence .standard = .ok r ∧
      r.slots.map (fun slot => slot.domain.name) = ["day"] :=
  ⟨build_eq, ⟨⟨"x", some "day"⟩, by decide, rfl, rfl⟩, rfl,
    ⟨⟨"x", some "night"⟩, by decide, rfl, rfl⟩, _, rfl, rfl⟩

end Layout.Calendar

end LogicNetwork
