import LogicNetwork.Proofs.Evidence.Calls
import LogicNetwork.Proofs.Evidence.Views
import LogicNetwork.Proofs.Grounding.Symbols
import LogicNetwork.Proofs.Network.States
import LogicNetwork.Proofs.Network.TrueCount

/-!
# The form of a network

There is one way only to write down a network that was grounded (`Network.IsCanonical`): its atoms
are the unknown ones that matter, in ascending order; the literals of a constraint are over
different atoms and in ascending order, a single literal is positive, and no two constraints have
the same literals; every constraint has sources, and a negative frequency only if it has a single
literal.  Grounding under evidence that was built and then changed gives networks of this form
(`Network.isCanonical_of_ground`).

Each stage adds its part.  What is left of a clause is ordered and undecided
(`ResolvedClause.outcome_eq_clause`); contributions keep the order and turn single literals
(`Contribution.isCanonical_of`); the table of tallies is sorted (`TallyTable.pairwise_entries`) and
leaves its order to the constraints (`Network.IsGrounding.pairwise_constraints`).
-/

namespace LogicNetwork

/-! ### What is left of a clause -/

theorem TruthValue.known?_eq_none_iff {v : TruthValue} : v.known? = none ↔ v = .unknown := by
  cases v <;> simp [known?]

/-- An undecided literal is about an atom that its table says to be unknown. -/
theorem ResolvedLiteral.exists_of_judge_eq_undecided {e : Evidence} {slots : List Denotation}
    {m : ResolvedLiteral} {l : GroundLiteral} (hm : m.IsBasedOn e)
    (h : m.judge slots = .undecided l) :
    ∃ t ∈ e.tables, (∃ indices, t.block.encodeIndices indices = some l.atom) ∧
      t.get l.atom = .unknown := by
  cases m with
  | computed positive test as =>
    rw [judge] at h
    split at h
    · cases h
    · rename_i symbols _
      rw [Verdict.ofBool] at h
      split_ifs at h
  | atom positive table as =>
    rw [judge_atom] at h
    split at h
    · cases h
    · rename_i id hid
      split at h
      · rename_i truth _
        rw [Verdict.ofBool] at h
        split_ifs at h
      · rename_i hunknown
        cases h
        obtain ⟨indices, -, hencode⟩ := Option.bind_eq_some_iff.mp hid
        exact ⟨table, hm, ⟨indices, hencode⟩, TruthValue.known?_eq_none_iff.mp hunknown⟩

/-- What is left of a clause are literals over different atoms in ascending order, and the verdict
on some literal of the clause left each of them open. -/
theorem ResolvedClause.outcome_eq_clause {c : ResolvedClause} {binding : List Nat}
    {literals : List GroundLiteral} (h : c.outcome binding = .clause literals) :
    (literals.Pairwise fun l m => l.atom.number < m.atom.number) ∧
      ∀ l ∈ literals, ∃ m ∈ c.literals, m.judge (c.denotations binding) = .undecided l := by
  rw [outcome] at h
  split_ifs at h
  rw [judgeAll_eq_match] at h
  split at h
  · -- a verdict that ends the judging leaves no literals
    rename_i o hfirst
    obtain ⟨v, -, hv⟩ := List.exists_of_findSome?_eq_some hfirst
    rw [h] at hv
    cases v <;> cases hv
  · dsimp only at h
    split_ifs at h with hcomplement
    cases h
    rw [Bool.not_eq_true] at hcomplement
    refine ⟨pairwise_atom_lt (isOrdered_foldl_insertLiteral .nil _) hcomplement, ?_⟩
    intro l hl
    rw [mem_foldl_insertLiteral, List.mem_filterMap] at hl
    obtain ⟨v, hv, hleft⟩ := hl.resolve_right List.not_mem_nil
    obtain ⟨m, hm, rfl⟩ := List.mem_map.mp hv
    refine ⟨m, hm, ?_⟩
    cases hjudge : m.judge (c.denotations binding) with
    | undecided g =>
      rw [hjudge] at hleft
      rw [← Option.some.inj hleft]
    | _ =>
      rw [hjudge] at hleft
      cases hleft

/-! ### Contributions -/

namespace Contribution

/-- Whether a contribution is over different atoms in ascending order, where a single literal is
positive, and counts against its literals only if there is one. -/
structure IsCanonical (x : Contribution) : Prop where
  ascending : x.literals.Pairwise fun l m => l.atom.number < m.atom.number
  positive_of_unit : ∀ l, x.literals = [l] → l.positive = true
  unit_of_negative : x.positive = false → x.literals.length = 1

theorem isCanonical_of {clause : Nat} {literals : List GroundLiteral}
    (h : literals.Pairwise fun l m => l.atom.number < m.atom.number) :
    (Contribution.of clause literals).IsCanonical := by
  unfold Contribution.of
  split
  · rename_i l
    split
    · rename_i hpositive
      exact ⟨h, fun _ heq => List.head_eq_of_cons_eq heq ▸ hpositive, nofun⟩
    · -- the single negative literal is turned
      rename_i hnegative
      refine ⟨List.pairwise_singleton _ _, fun _ heq => ?_, fun _ => rfl⟩
      rw [← List.head_eq_of_cons_eq heq]
      simpa [GroundLiteral.negate] using hnegative
  · rename_i hmany
    exact ⟨h, fun l heq => absurd heq (hmany l), nofun⟩

/-- A contribution is about the atoms of the literals that it is made of. -/
theorem exists_literal_of {clause : Nat} {literals : List GroundLiteral} {l : GroundLiteral}
    (hl : l ∈ (Contribution.of clause literals).literals) :
    ∃ m ∈ literals, m.atom = l.atom := by
  unfold Contribution.of at hl
  split at hl
  · rename_i m
    split at hl
    · exact ⟨l, hl, rfl⟩
    · exact ⟨m, List.mem_cons_self, by rw [List.mem_singleton.mp hl, GroundLiteral.negate]⟩
  · exact ⟨l, hl, rfl⟩

end Contribution

/-! ### Tables of tallies -/

namespace TallyTable

theorem pairwise_entries (t : TallyTable) :
    t.entries.Pairwise fun a b => compare a.1 b.1 = .lt := by
  rw [entries, List.pairwise_map]
  exact Std.TreeMap.ordered_keys_toList

theorem pairwise_of_mem_entries {t : TallyTable} {entry : List GroundLiteral × List (Nat × Tally)}
    (h : entry ∈ t.entries) : entry.2.Pairwise fun a b => a.1 < b.1 := by
  obtain ⟨⟨literals, tallies⟩, -, rfl⟩ := List.mem_map.mp h
  exact Std.TreeMap.ordered_keys_toList.imp Nat.compare_eq_lt.mp

end TallyTable

theorem pairwise_sourcesOf {tallies : List (Nat × Tally)}
    (h : tallies.Pairwise fun a b => a.1 < b.1) :
    (sourcesOf tallies).Pairwise fun s t => s.clause < t.clause := by
  rw [sourcesOf]
  apply List.Pairwise.filter
  rw [List.pairwise_map]
  exact h

/-! ### Networks -/

namespace Network

variable {α : Type} [WeightArithmetic α] {n : Network α} {b : Builtins} {e : Evidence}
  {clauses : List (Clause α)} {query : List Signature} {resolved : List ResolvedClause}

omit [WeightArithmetic α] in
/-- The atoms of a network are those of its constraints and the unknown ones of the query. -/
theorem mem_atomsOf {l : Layout} (he : e.IsStoreOf l) {ds : List (Constraint α)} {id : AtomId} :
    id ∈ atomsOf e query ds ↔
      (∃ d ∈ ds, ∃ l ∈ d.literals, l.atom = id) ∨ ∃ s ∈ query, e.get s id = .ok .unknown := by
  rw [atomsOf, Std.TreeSet.mem_toList, Std.TreeSet.mem_ofList, List.contains_iff_mem,
    List.mem_append]
  simp only [List.mem_flatMap, List.mem_map, he.mem_unknownIds_iff]

/-- A fault of weights names a constraint by its place, and a source of it. -/
theorem exists_of_reweighFrom_eq_error {weightOf : Nat → Option (Weight α)} {position : Nat}
    {ds : List (Constraint α)} {clause i : Nat}
    (h : (reweighFrom weightOf position ds).2 = .error (.unknownWeight clause i)) :
    ∃ j d, i = position + j ∧ ds[j]? = some d ∧ ∃ s ∈ d.sources, s.clause = clause := by
  induction ds generalizing position with
  | nil => cases h
  | cons d ds ih =>
    rw [reweighFrom] at h
    split at h
    · rename_i s hs
      cases h
      exact ⟨0, d, rfl, rfl, s, List.mem_of_find?_eq_some hs, rfl⟩
    · obtain ⟨j, c, rfl, hc, hsource⟩ := ih h
      exact ⟨j + 1, c, by omega, hc, hsource⟩

namespace IsGrounding

/-- The sources of a constraint have contributed to its literals. -/
theorem exists_contribution_of_source (h : n.IsGrounding b e clauses query resolved)
    {d : Constraint α} (hd : d ∈ n.constraints) {s : Source} (hs : s ∈ d.sources) :
    ∃ positive, ⟨d.literals, s.clause, positive⟩ ∈ contributionsOf resolved := by
  obtain ⟨entry, hentry, -, rfl⟩ := h.mem_constraints_iff.mp hd
  obtain ⟨t, ht, -⟩ := mem_sourcesOf.mp hs
  rw [TallyTable.mem_of_mem_entries hentry, TallyTable.tally?_ofList_eq_some_iff] at ht
  exact ht.1

theorem sources_ne_nil (h : n.IsGrounding b e clauses query resolved) {d : Constraint α}
    (hd : d ∈ n.constraints) : d.sources ≠ [] := by
  obtain ⟨entry, -, hsources, rfl⟩ := h.mem_constraints_iff.mp hd
  exact hsources

theorem frequency_ne_zero (h : n.IsGrounding b e clauses query resolved) {d : Constraint α}
    (hd : d ∈ n.constraints) {s : Source} (hs : s ∈ d.sources) : s.frequency ≠ 0 := by
  obtain ⟨entry, -, -, rfl⟩ := h.mem_constraints_iff.mp hd
  exact (mem_sourcesOf.mp hs).choose_spec.2.2

/-- A source of negative frequency has contributed negatively. -/
theorem mem_contributionsOf_of_neg (h : n.IsGrounding b e clauses query resolved)
    {d : Constraint α} (hd : d ∈ n.constraints) {s : Source} (hs : s ∈ d.sources)
    (hsmall : ∀ r ∈ resolved, MixedRadix.count r.radices < 2147483648) (hneg : s.frequency < 0) :
    ⟨d.literals, s.clause, false⟩ ∈ contributionsOf resolved := by
  obtain ⟨entry, hentry, -, rfl⟩ := h.mem_constraints_iff.mp hd
  have hfrequency := signOf_mul_frequency hentry hs
    (h.countP_contributionsOf_lt hsmall s.clause) true
  rw [signOf_true, one_mul, Bool.not_true] at hfrequency
  apply Contribution.countFor_pos_iff.mp
  show 0 < Contribution.countFor (contributionsOf resolved) entry.1 s.clause false
  omega

theorem pairwise_sources (h : n.IsGrounding b e clauses query resolved) {d : Constraint α}
    (hd : d ∈ n.constraints) : d.sources.Pairwise fun s t => s.clause < t.clause := by
  obtain ⟨entry, hentry, -, rfl⟩ := h.mem_constraints_iff.mp hd
  exact pairwise_sourcesOf (TallyTable.pairwise_of_mem_entries hentry)

/-- The constraints keep the order of the entries that they come from. -/
theorem pairwise_constraints (h : n.IsGrounding b e clauses query resolved) :
    n.constraints.Pairwise fun c d => compare c.literals d.literals = .lt := by
  rw [(constraintsOf_eq_ok_iff.mp h.constraints_eq).2]
  refine List.Pairwise.filterMap _ ?_ (TallyTable.pairwise_entries _)
  intro x y hxy c hc d hd
  rw [(constraint?_eq_some_iff.mp hc).2, (constraint?_eq_some_iff.mp hd).2]
  exact hxy

/-- Contributions are canonical, and their atoms are unknown. -/
theorem isCanonical_of_mem (h : n.IsGrounding b e clauses query resolved) {x : Contribution}
    (hx : x ∈ contributionsOf resolved) :
    x.IsCanonical ∧ ∀ l ∈ x.literals, ∃ t ∈ e.tables,
      (∃ indices, t.block.encodeIndices indices = some l.atom) ∧ t.get l.atom = .unknown := by
  obtain ⟨r, hr, binding, -, literals, houtcome, rfl⟩ := mem_contributionsOf.mp hx
  obtain ⟨hascending, hundecided⟩ := ResolvedClause.outcome_eq_clause houtcome
  refine ⟨Contribution.isCanonical_of hascending, ?_⟩
  intro l hl
  obtain ⟨g, hg, hatom⟩ := Contribution.exists_literal_of hl
  obtain ⟨m, hm, hjudge⟩ := hundecided g hg
  rw [← hatom]
  exact ResolvedLiteral.exists_of_judge_eq_undecided (h.isBasedOn hr m hm) hjudge

/-- Only constraints with one literal have sources of negative frequency. -/
theorem isUnit_of_neg (h : n.IsGrounding b e clauses query resolved)
    (hsmall : ∀ r ∈ resolved, MixedRadix.count r.radices < 2147483648) {d : Constraint α}
    (hd : d ∈ n.constraints) {s : Source} (hs : s ∈ d.sources) (hneg : s.frequency < 0) :
    d.isUnit = true := by
  have hx := h.mem_contributionsOf_of_neg hd hs hsmall hneg
  exact beq_iff_eq.mpr ((h.isCanonical_of_mem hx).1.unit_of_negative rfl)

/-- Every constraint is that of a canonical contribution. -/
theorem exists_contribution_of_mem (h : n.IsGrounding b e clauses query resolved)
    {d : Constraint α} (hd : d ∈ n.constraints) :
    ∃ x ∈ contributionsOf resolved, x.literals = d.literals := by
  obtain ⟨s, hs⟩ := List.exists_mem_of_ne_nil _ (h.sources_ne_nil hd)
  obtain ⟨positive, hx⟩ := h.exists_contribution_of_source hd hs
  exact ⟨_, hx, rfl⟩

theorem pairwise_literals (h : n.IsGrounding b e clauses query resolved) {d : Constraint α}
    (hd : d ∈ n.constraints) : d.literals.Pairwise fun l m => l.atom.number < m.atom.number := by
  obtain ⟨x, hx, hliterals⟩ := h.exists_contribution_of_mem hd
  exact hliterals ▸ (h.isCanonical_of_mem hx).1.ascending

/-- The atoms of constraints are unknown, provided that the ids of tuples belong to their blocks. -/
theorem exists_get_eq_unknown (h : n.IsGrounding b e clauses query resolved) {l : Layout}
    (he : e.IsStoreOf l) (hl : l.IsDeclared)
    (hcontains : ∀ b ∈ l.blocks, ∀ indices id, b.encodeIndices indices = some id →
      b.contains id.number = true) {d : Constraint α} (hd : d ∈ n.constraints)
    {g : GroundLiteral} (hg : g ∈ d.literals) : ∃ s, e.get s g.atom = .ok .unknown := by
  obtain ⟨x, hx, hliterals⟩ := h.exists_contribution_of_mem hd
  obtain ⟨t, ht, ⟨indices, hid⟩, hunknown⟩ := (h.isCanonical_of_mem hx).2 g (hliterals ▸ hg)
  have hblock := hcontains t.block (he.block_mem ht) indices g.atom hid
  rw [← hunknown]
  exact ⟨_, he.get_eq_ok_of_mem hl ht hblock⟩

end IsGrounding

/-! ### Canonical networks -/

/-- Whether a network is in the one form that grounding gives it. -/
structure IsCanonical (n : Network α) (e : Evidence) (query : List Signature) : Prop where
  ascending : IsAscending n.atoms
  mem_atoms_iff : ∀ id, (∃ a ∈ n.atoms, a.id = id) ↔
    (∃ d ∈ n.constraints, ∃ l ∈ d.literals, l.atom = id) ∨
      ∃ s ∈ query, e.get s id = .ok .unknown
  unknown : ∀ a ∈ n.atoms, ∃ s, e.get s a.id = .ok .unknown
  literals_ascending : ∀ d ∈ n.constraints,
    d.literals.Pairwise fun l m => l.atom.number < m.atom.number
  positive_of_unit : ∀ d ∈ n.constraints, ∀ l, d.literals = [l] → l.positive = true
  /-- Constraints are in the order of their literals. -/
  ordered : n.constraints.Pairwise fun c d => compare c.literals d.literals = .lt
  distinct : n.constraints.Pairwise fun c d => ¬ ∀ l, l ∈ c.literals ↔ l ∈ d.literals
  /-- The number by which a fault names a constraint is its place. -/
  place : ∀ (weightOf : Nat → Option (Weight α)) (clause i : Nat),
    (n.updateWeights weightOf).2 = .error (.unknownWeight clause i) →
      ∃ d, n.constraints[i]? = some d ∧ ∃ s ∈ d.sources, s.clause = clause
  sources_ne_nil : ∀ d ∈ n.constraints, d.sources ≠ []
  sources_ascending : ∀ d ∈ n.constraints, d.sources.Pairwise fun s t => s.clause < t.clause
  frequency_ne_zero : ∀ d ∈ n.constraints, ∀ s ∈ d.sources, s.frequency ≠ 0
  unit_of_negative : ∀ d ∈ n.constraints, ∀ s ∈ d.sources, s.frequency < 0 → d.isUnit = true

/-- Lists of literals over ascending atoms that have the same members are the same. -/
theorem eq_of_pairwise_atom_lt {ls ms : List GroundLiteral}
    (hls : ls.Pairwise fun l m => l.atom.number < m.atom.number)
    (hms : ms.Pairwise fun l m => l.atom.number < m.atom.number)
    (h : ∀ l, l ∈ ls ↔ l ∈ ms) : ls = ms := by
  have hordered : ∀ {a b : GroundLiteral}, a.atom.number < b.atom.number →
      a.precedes b = true := by
    intro a b hab
    exact GroundLiteral.precedes_iff.mpr (.inl hab)
  exact eq_of_pairwise_precedes (hls.imp hordered) (hms.imp hordered) h

/-- A grounding is canonical, provided that the ids of tuples belong to their blocks. -/
theorem IsGrounding.isCanonical (h : n.IsGrounding b e clauses query resolved)
    (hsmall : ∀ r ∈ resolved, MixedRadix.count r.radices < 2147483648) {l : Layout}
    (he : e.IsStoreOf l) (hl : l.IsDeclared)
    (hcontains : ∀ b ∈ l.blocks, ∀ indices id, b.encodeIndices indices = some id →
      b.contains id.number = true) : n.IsCanonical e query := by
  have hmem : ∀ id, (∃ a ∈ n.atoms, a.id = id) ↔
      (∃ d ∈ n.constraints, ∃ l ∈ d.literals, l.atom = id) ∨
        ∃ s ∈ query, e.get s id = .ok .unknown := by
    intro id
    rw [← mem_atomsOf he, h.atoms_eq]
    simp [NetworkAtom.fresh]
  refine
    { ascending := h.isAscending
      mem_atoms_iff := hmem
      unknown := ?_
      literals_ascending := fun d hd => h.pairwise_literals hd
      positive_of_unit := ?_
      ordered := h.pairwise_constraints
      distinct := ?_
      place := ?_
      sources_ne_nil := fun d hd => h.sources_ne_nil hd
      sources_ascending := fun d hd => h.pairwise_sources hd
      frequency_ne_zero := fun d hd _ => h.frequency_ne_zero hd
      unit_of_negative := fun d hd s hs => h.isUnit_of_neg hsmall hd hs }
  · intro a ha
    rcases (hmem a.id).mp ⟨a, ha, rfl⟩ with ⟨d, hd, g, hg, hatom⟩ | ⟨s, -, hs⟩
    · rw [← hatom]
      exact h.exists_get_eq_unknown he hl hcontains hd hg
    · exact ⟨s, hs⟩
  · intro d hd l hunit
    obtain ⟨x, hx, hliterals⟩ := h.exists_contribution_of_mem hd
    exact (h.isCanonical_of_mem hx).1.positive_of_unit l (hliterals.trans hunit)
  · refine h.pairwise_constraints.imp_of_mem fun {c d} hc hd hlt hsame => ?_
    have hliterals :=
      eq_of_pairwise_atom_lt (h.pairwise_literals hc) (h.pairwise_literals hd) hsame
    rw [hliterals, Std.ReflOrd.compare_self] at hlt
    cases hlt
  · intro weightOf clause i hfault
    obtain ⟨j, d, rfl, hd, hsource⟩ := exists_of_reweighFrom_eq_error hfault
    rw [Nat.zero_add]
    exact ⟨d, hd, hsource⟩

/-- Grounding under evidence that was built, and then changed by any calls, gives a canonical
network.  If the ids do not wrap, its atoms are unknown also when looked up by id alone. -/
theorem isCanonical_of_ground {schema : Schema} {domains : Domains} {l : Layout} {a : Assumptions}
    {facts : List Fact} {values : List FunctionValue} {start : Evidence} {chunkSize : Nat}
    (hl : Layout.build schema domains = .ok l) (he : Evidence.build l a facts values = .ok start)
    (calls : List Evidence.Call)
    (hn : ground chunkSize b (start.after calls) clauses query = .ok n)
    (hsmall : ∀ c ∈ clauses, c.substitutionCount (start.after calls) b < 2147483648) :
    n.IsCanonical (start.after calls) query ∧
      (schema.predicates.length + schema.functions.length < 2147483648 →
        ∀ a ∈ n.atoms, (start.after calls).state a.id = .ok .unknown) := by
  obtain ⟨resolved, h⟩ := isGrounding_of_ground hn
  have hdeclared := Layout.isDeclared_of_build hl
  have hstore := Evidence.isStoreOf_after_build hdeclared he calls
  have hcounts : ∀ r ∈ resolved, MixedRadix.count r.radices < 2147483648 := by
    intro r hr
    obtain ⟨c, hc, hresolve⟩ := h.exists_clause hr
    rw [← Clause.substitutionCount_eq hresolve]
    exact hsmall c hc
  have hcanonical := h.isCanonical hcounts hstore hdeclared fun b hb _ _ hid =>
    Layout.contains_of_encodeIndices hl hb hid
  refine ⟨hcanonical, ?_⟩
  intro hfew a ha
  obtain ⟨s, hs⟩ := hcanonical.unknown a ha
  exact hstore.state_eq (Layout.isLaidOut_of_build hl hfew).1 hs

end Network

/-! #### The small theory, built -/

namespace Weather

theorem build_layout : Layout.build evidence.layout.schema evidence.layout.domains =
    .ok evidence.layout :=
  rfl

theorem isComplete_layout : evidence.layout.IsComplete :=
  Layout.isComplete_of_build build_layout (by decide +kernel)

/-- The assumptions of the forecast, without what is known. -/
def start : Evidence :=
  { evidence with tables := [.empty rain false, .empty wet false] }

theorem build_start :
    Evidence.build evidence.layout ⟨[⟨"wet", 1⟩], [⟨"rain", 1⟩], []⟩ [] [] = .ok start :=
  rfl

theorem isStoreOf_evidence : evidence.IsStoreOf evidence.layout :=
  Evidence.isStoreOf_after_build isComplete_layout.toIsDeclared build_start
    [.set ⟨"rain", 1⟩ rainOnMonday .true]

end Weather

namespace Network

/-- On the small theory: rain on Monday becomes known, and then it is asked what is wet. -/
theorem isCanonical_of_ground_weather :
    ∃ start n, Layout.build Weather.evidence.layout.schema Weather.evidence.layout.domains =
        .ok Weather.evidence.layout ∧
      Evidence.build Weather.evidence.layout ⟨[⟨"wet", 1⟩], [⟨"rain", 1⟩], []⟩ [] [] =
        .ok start ∧
      start.after [.set ⟨"rain", 1⟩ Weather.rainOnMonday .true] = Weather.evidence ∧
      ground 1 ⟨[], []⟩ (start.after [.set ⟨"rain", 1⟩ Weather.rainOnMonday .true])
        Weather.clauses [⟨"wet", 1⟩] = .ok n ∧
      (∀ c ∈ Weather.clauses, c.substitutionCount Weather.evidence ⟨[], []⟩ < 2147483648) ∧
      n.IsCanonical (start.after [.set ⟨"rain", 1⟩ Weather.rainOnMonday .true]) [⟨"wet", 1⟩] ∧
      ∀ a ∈ n.atoms, (start.after [.set ⟨"rain", 1⟩ Weather.rainOnMonday .true]).state a.id =
        .ok .unknown := by
  have hground : (ground 1 ⟨[], []⟩ Weather.evidence Weather.clauses [⟨"wet", 1⟩]).isOk = true := by
    decide +kernel
  obtain ⟨n, hn⟩ := Except.isOk_iff.mp hground
  have hsmall : ∀ c ∈ Weather.clauses,
      c.substitutionCount Weather.evidence ⟨[], []⟩ < 2147483648 := by
    decide +kernel
  obtain ⟨hcanonical, hstate⟩ := isCanonical_of_ground Weather.build_layout Weather.build_start
    [.set ⟨"rain", 1⟩ Weather.rainOnMonday .true] hn hsmall
  exact ⟨_, n, Weather.build_layout, Weather.build_start, rfl, hn, hsmall, hcanonical, hstate (by decide)⟩

end Network

end LogicNetwork
