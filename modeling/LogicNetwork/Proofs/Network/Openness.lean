import LogicNetwork.Proofs.Evidence.Functions
import LogicNetwork.Proofs.Evidence.History
import LogicNetwork.Proofs.ExactWeight
import LogicNetwork.Proofs.Network.Canonical

/-!
# Open and closed signatures

A store that was built is open at the signatures that its assumptions list as query or open, and
asserts nothing but what its facts and values of functions say (`Evidence.IsUnder`, which every call
keeps).  So an atom that none of these asserts has the default of its signature
(`Evidence.IsUnder.get_eq`).

The auxiliary predicate of a function is therefore closed just if it is not listed as query or open
(`Network.closesAuxiliariesAt_iff`).  Building does not check this, and an auxiliary predicate that
is listed has unknown atoms like any other (`Layout.Calendar.auxiliary_unknown_of_listed`).
-/

namespace LogicNetwork

namespace Assumptions

variable {a : Assumptions} {s : Signature}

/-- Whether assumptions list a signature as query or open. -/
def Lists (a : Assumptions) (s : Signature) : Prop :=
  s ∈ a.query ∨ s ∈ a.openWorld

theorem default_of_lists (h : a.Lists s) : a.default s = .unknown :=
  if_pos h

theorem default_of_not_lists (h : ¬ a.Lists s) : a.default s = .false :=
  if_neg h

end Assumptions

namespace Evidence

variable {e : Evidence} {l : Layout} {a : Assumptions} {calls : List Call} {s : Signature}
  {id : AtomId} {v : TruthValue} {b : Block} {t : FactTable}

/-- Whether a store of a layout is open where assumptions say so, and asserts nothing but what calls
assert. -/
structure IsUnder (e : Evidence) (l : Layout) (a : Assumptions) (calls : List Call) : Prop
    extends e.IsStoreOf l where
  closed_iff : ∀ t ∈ e.tables, t.closed = false ↔ a.Lists t.block.signature
  asserted : ∀ t ∈ e.tables, ∀ id ∈ t.explicit,
    ∃ c ∈ calls, c.atom? l = some (t.block.signature, id)

/-- Whether none of some calls asserts an atom. -/
def IsSilentOn (calls : List Call) (l : Layout) (s : Signature) (id : AtomId) : Prop :=
  ∀ c ∈ calls, c.atom? l ≠ some (s, id)

theorem isUnder_unasserted (h : unasserted l a = .ok e) : e.IsUnder l a calls := by
  have hstore := isStoreOf_unasserted h
  obtain ⟨⟨⟩, -, h⟩ := Except.bind_eq_ok_iff.mp h
  cases h
  refine ⟨hstore, fun t ht => ?_, fun t ht id hid => ?_⟩
  · obtain ⟨b, -, rfl⟩ := List.mem_map.mp ht
    simp only [FactTable.empty, Bool.not_eq_false', Bool.or_eq_true, List.contains_iff_mem,
      Assumptions.Lists]
  · obtain ⟨b, -, rfl⟩ := List.mem_map.mp ht
    exact absurd hid Std.TreeMap.not_mem_emptyc

namespace IsUnder

/-- Writing the atom that one of the calls asserts. -/
theorem put (h : e.IsUnder l a calls) (hl : l.IsDeclared) {c : Call} (hc : c ∈ calls)
    (hatom : c.atom? l = some (s, id)) (hid : ∃ t, e.tableOf s id = .ok t) :
    (e.put s id v).IsUnder l a calls := by
  refine ⟨h.toIsStoreOf.put hl hid, fun t ht => ?_, ?_⟩
  · obtain ⟨u, hu, rfl⟩ := List.mem_map.mp ht
    split_ifs
    · exact h.closed_iff u hu
    · exact h.closed_iff u hu
  · intro t ht other hother
    obtain ⟨u, hu, rfl⟩ := List.mem_map.mp ht
    split_ifs at hother ⊢ with hsignature
    · rcases Std.TreeMap.mem_insert.mp hother with heq | hother
      · rw [← Std.LawfulEqCmp.eq_of_compare heq]
        exact ⟨c, hc, hsignature ▸ hatom⟩
      · exact h.asserted u hu other hother
    · exact h.asserted u hu other hother

theorem settle_assert (h : e.IsUnder l a calls) (hl : l.IsDeclared) {c : Call} (hc : c ∈ calls)
    {constants : List String} (hatom : ∀ id, l.encode s constants = .ok id →
      c.atom? l = some (s, id)) :
    (e.settle ((e.assert s constants v).map Prod.snd)).1.IsUnder l a calls := by
  rcases e.assert_cases s constants v with ⟨cause, hassert⟩ | ⟨id, hid, htable, hassert⟩
  · rw [hassert]
    exact h
  · rw [h.layout_eq] at hid
    rw [hassert]
    exact h.put hl hc (hatom id hid) htable

theorem perform (h : e.IsUnder l a calls) (hl : l.IsDeclared) {c : Call} (hc : c ∈ calls) :
    (e.perform c).1.IsUnder l a calls := by
  cases c with
  | set s id v =>
    show (e.settle (e.set s id v)).1.IsUnder l a calls
    rcases e.set_cases s id v with ⟨cause, hset⟩ | ⟨htable, hset⟩
    · rw [hset]
      exact h
    · rw [hset]
      exact h.put hl hc rfl htable
  | assert s constants v =>
    refine h.settle_assert hl hc fun id hid => ?_
    simp [Call.atom?, hid, Except.toOption]
  | record f =>
    show (e.record f).1.IsUnder l a calls
    rcases e.record_cases f with ⟨cause, hrecord⟩ | ⟨t, larger, hfunction, hinsert, hrecord⟩
    · rw [hrecord]
      exact h
    · -- the table of the function has no part in this
      have hwritten : (e.putFunction larger).IsUnder l a calls :=
        ⟨(h.putFunction_insert hl hfunction hinsert).1, h.closed_iff, h.asserted⟩
      rw [hrecord]
      refine hwritten.settle_assert hl hc fun id hid => ?_
      simp [Call.atom?, hid, Except.toOption]

theorem after (h : e.IsUnder l a calls) (hl : l.IsDeclared) {made : List Call}
    (hmade : ∀ c ∈ made, c ∈ calls) : (e.after made).IsUnder l a calls := by
  induction made generalizing e with
  | nil => exact h
  | cons c made ih =>
    exact ih (h.perform hl (hmade c List.mem_cons_self)) fun d hd =>
      hmade d (List.mem_cons_of_mem c hd)

theorem isOpenWorld_iff (h : e.IsUnder l a calls) (hl : l.IsDeclared) (hb : b ∈ l.blocks) :
    ∃ opened, e.isOpenWorld b.signature = .ok opened ∧ (opened = true ↔ a.Lists b.signature) := by
  rw [← h.blocks_eq] at hb
  obtain ⟨t, ht, rfl⟩ := List.mem_map.mp hb
  have htable := table_eq_ok_iff.mpr ((h.table?_eq_some_iff hl).mpr ⟨ht, rfl⟩)
  refine ⟨!t.closed, by rw [isOpenWorld, htable]; rfl, ?_⟩
  rw [Bool.not_eq_true', h.closed_iff t ht]

/-- An atom that no call asserts has the default of its signature. -/
theorem get_eq (h : e.IsUnder l a calls) (hl : l.IsDeclared) (hb : b ∈ l.blocks)
    (hid : b.contains id.number = true) (hsilent : IsSilentOn calls l b.signature id) :
    e.get b.signature id = .ok (a.default b.signature) := by
  rw [← h.blocks_eq] at hb
  obtain ⟨t, ht, rfl⟩ := List.mem_map.mp hb
  have hnone : t.explicit[id]? = none := by
    refine Std.TreeMap.getElem?_eq_none fun hexplicit => ?_
    obtain ⟨c, hc, hatom⟩ := h.asserted t ht id hexplicit
    exact hsilent c hc hatom
  have hdefault : t.default = a.default t.block.signature := by
    have hclosed := h.closed_iff t ht
    rw [FactTable.default]
    by_cases hlists : a.Lists t.block.signature
    · rw [hclosed.mpr hlists, Assumptions.default_of_lists hlists]
      rfl
    · rw [Bool.eq_true_of_not_eq_false (mt hclosed.mp hlists),
        Assumptions.default_of_not_lists hlists]
      rfl
  rw [h.get_eq_ok_of_mem hl ht hid, FactTable.get_eq, hnone, Option.getD_none, hdefault]

end IsUnder

theorem isUnder_of_build {facts : List Fact} {values : List FunctionValue} (hl : l.IsDeclared)
    (h : build l a facts values = .ok e) : e.IsUnder l a (Call.ofTheory facts values) := by
  obtain ⟨start, hstart, rfl, -⟩ := build_eq_ok h
  exact (isUnder_unasserted hstart).after hl fun _ hc => hc

end Evidence

/-! ### Networks -/

/-- Blocks that lie end to end share no id. -/
theorem Layout.IsLaidOut.eq_of_contains {l : Layout} (hl : l.IsLaidOut) {b c : Block} {id : Nat}
    (hb : b ∈ l.blocks) (hc : c ∈ l.blocks) (hbid : b.contains id = true)
    (hcid : c.contains id = true) : b = c := by
  have hfirst := hl.tiles.find?_eq_some hl.positional hb hbid
  have hsecond := hl.tiles.find?_eq_some hl.positional hc hcid
  rw [hfirst] at hsecond
  exact Option.some.inj hsecond

/-- Whether the rule that auxiliary predicates are closed holds at the signature of a block. -/
structure Evidence.ClosesAuxiliariesAt (α : Type) [WeightArithmetic α] (e : Evidence) (l : Layout)
    (a : Assumptions) (calls : List Evidence.Call) (b : Block) : Prop where
  isOpenWorld_iff : e.isOpenWorld b.signature = .ok true ↔
    a.Lists b.signature ∧ b.signature ∉ l.schema.auxiliaries
  /-- An auxiliary atom that nothing asserts is false. -/
  get_eq : b.signature ∈ l.schema.auxiliaries → ∀ id, b.contains id.number = true →
    Evidence.IsSilentOn calls l b.signature id → e.get b.signature id = .ok .false
  /-- Such an atom is in no network.  Its id may be in one only if ends of blocks have wrapped around,
  as the id of an unknown atom of another block. -/
  not_mem : b.signature ∈ l.schema.auxiliaries → ∀ id, b.contains id.number = true →
    Evidence.IsSilentOn calls l b.signature id →
    ∀ (chunkSize : Nat) (builtins : Builtins) (clauses : List (Clause α)) (query : List Signature)
      (n : Network α), Network.ground chunkSize builtins e clauses query = .ok n →
      ∀ x ∈ n.atoms, x.id = id → ¬ (∀ c ∈ l.blocks, c.first < c.stop) ∧
        ∃ c ∈ l.blocks, c ≠ b ∧ c.contains id.number = true ∧
          e.get c.signature id = .ok .unknown

namespace Network

variable {α : Type} [WeightArithmetic α] {schema : Schema} {domains : Domains} {l : Layout}
  {a : Assumptions} {facts : List Fact} {values : List FunctionValue} {e : Evidence}
  {builtins : Builtins} {clauses : List (Clause α)} {query : List Signature} {chunkSize : Nat}
  {n : Network α} {b : Block}

/-- The atoms of a network are unknown, whatever clauses and query it was grounded from. -/
theorem exists_get_of_mem_atoms (hl : Layout.build schema domains = .ok l) (he : e.IsStoreOf l)
    (hn : ground chunkSize builtins e clauses query = .ok n) {x : NetworkAtom}
    (hx : x ∈ n.atoms) : ∃ c ∈ l.blocks, c.contains x.id.number = true ∧
      e.get c.signature x.id = .ok .unknown := by
  have hdeclared := Layout.isDeclared_of_build hl
  obtain ⟨resolved, h⟩ := isGrounding_of_ground hn
  have hunknown : ∃ s, e.get s x.id = .ok .unknown := by
    rw [h.atoms_eq, List.mem_toArray, List.mem_map] at hx
    obtain ⟨id, hid, rfl⟩ := hx
    rcases (mem_atomsOf he).mp hid with ⟨d, hd, g, hg, rfl⟩ | ⟨s, -, hs⟩
    · exact h.exists_get_eq_unknown he hdeclared
        (fun b hb _ _ hid => Layout.contains_of_encodeIndices hl hb hid) hd hg
    · exact ⟨s, hs⟩
  obtain ⟨s, hs⟩ := hunknown
  obtain ⟨t, ht, -⟩ := Except.map_eq_ok_iff.mp hs
  obtain ⟨c, hc, rfl, hcontains⟩ := (he.exists_tableOf_iff hdeclared).mp ⟨t, ht⟩
  exact ⟨c, hc, hcontains, hs⟩

/-- The auxiliary predicate of a function is closed, and its atoms that nothing asserts are false
and no random variables, if and only if it is not listed as query or open. -/
theorem closesAuxiliariesAt_iff (hl : Layout.build schema domains = .ok l)
    (he : Evidence.build l a facts values = .ok e) (hb : b ∈ l.blocks) :
    e.ClosesAuxiliariesAt α l a (Evidence.Call.ofTheory facts values) b ↔
      ¬ (b.signature ∈ l.schema.auxiliaries ∧ a.Lists b.signature) := by
  have hdeclared := Layout.isDeclared_of_build hl
  have hunder := Evidence.isUnder_of_build hdeclared he
  obtain ⟨opened, hopened, hlists⟩ := hunder.isOpenWorld_iff hdeclared hb
  have hopenWorld : e.isOpenWorld b.signature = .ok true ↔ a.Lists b.signature := by
    rw [hopened, Except.ok.injEq, hlists]
  constructor
  · rintro h ⟨hauxiliary, hlisted⟩
    exact (h.isOpenWorld_iff.mp (hopenWorld.mpr hlisted)).2 hauxiliary
  · intro hnot
    have hget : b.signature ∈ l.schema.auxiliaries → ∀ id, b.contains id.number = true →
        Evidence.IsSilentOn (Evidence.Call.ofTheory facts values) l b.signature id →
        e.get b.signature id = .ok .false := by
      intro hauxiliary id hid hsilent
      rw [hunder.get_eq hdeclared hb hid hsilent,
        Assumptions.default_of_not_lists fun hlisted => hnot ⟨hauxiliary, hlisted⟩]
    refine ⟨?_, hget, ?_⟩
    · rw [hopenWorld]
      exact ⟨fun h => ⟨h, fun hauxiliary => hnot ⟨hauxiliary, h⟩⟩, And.left⟩
    · rintro hauxiliary id hid hsilent chunkSize builtins clauses query n hn x hx rfl
      obtain ⟨c, hc, hcontains, hunknown⟩ :=
        exists_get_of_mem_atoms hl hunder.toIsStoreOf hn hx
      have hne : c ≠ b := by
        rintro rfl
        rw [hget hauxiliary _ hid hsilent] at hunknown
        cases hunknown
      refine ⟨fun hends => hne ?_, c, hc, hne, hcontains, hunknown⟩
      exact (Layout.isRegular_of_build hl hends).toIsLaidOut.eq_of_contains hc hb hcontains hid

end Network

/-! #### A calendar -/

namespace Layout.Calendar

theorem closesAuxiliariesAt_iff_calendar : build schema domains = .ok layout ∧
    Evidence.build layout assumptions facts values = .ok evidence ∧ next ∈ layout.blocks ∧
    (evidence.ClosesAuxiliariesAt ℚ layout assumptions (Evidence.Call.ofTheory facts values) next ↔
      ¬ (next.signature ∈ layout.schema.auxiliaries ∧ assumptions.Lists next.signature)) :=
  ⟨build_eq, build_evidence, by simp [layout],
    Network.closesAuxiliariesAt_iff build_eq build_evidence (by simp [layout])⟩

/-- The days after days are listed as open, and nothing is known about them. -/
def undecided : Evidence where
  layout := layout
  tables := [.empty rain true, .empty holiday true, .empty plan true, .empty next false]
  functions := [.empty domains ⟨"next", "day", ["day"]⟩]

/-- Listing the auxiliary predicate as open makes it so, and the day after a day is a random
variable although no value of the function is recorded. -/
theorem auxiliary_unknown_of_listed :
    Evidence.build layout ⟨[], [⟨"AUXnext", 2⟩], []⟩ [] [] = .ok undecided ∧
      next ∈ layout.blocks ∧ next.signature ∈ layout.schema.auxiliaries ∧
      undecided.isOpenWorld next.signature = .ok true ∧
      undecided.get next.signature (atom 8) = .ok .unknown ∧
      (Network.ground 1 .standard undecided ([] : List (Clause ℚ)) [next.signature]).map
        (fun n => n.atoms.toList.map fun x => x.id.number) = .ok [8, 9, 10, 11] := by
  refine ⟨rfl, ?_, ?_, rfl, ?_, ?_⟩
  · simp [layout]
  · decide
  · rfl
  · rfl

end Layout.Calendar

end LogicNetwork
