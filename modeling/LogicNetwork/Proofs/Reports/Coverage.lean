import LogicNetwork.Proofs.Evidence.Names
import LogicNetwork.Proofs.Network.Canonical
import LogicNetwork.Proofs.Sampling.Accounts
import LogicNetwork.Report

/-!
# What a report covers

A report on the query has one record for each ground atom of a query signature that the evidence
leaves unknown, in the order of the ids, and no other records (`Network.reports_cover_query`).  This
holds at any time after grounding, because nothing that is done to a network later changes which
atoms it has.  A record of a state has the state of its atom; a record of a probability has the
number of samples in which its atom was true, divided by the number of samples
(`marginalValue_eq_ite`).

Some atoms of a network are there because constraints are about them.  These are unknown as well, so
that those of a query signature are among the unknown ones of the query anyway
(`Network.IsGrounding.exists_queryAtom_iff`).
-/

namespace LogicNetwork

/-- The probability of an atom is a share of the samples.  Without samples it is zero; smoothing
adds half an occurrence to the one number and a sample to the other. -/
theorem marginalValue_eq_ite (count samples : Nat) (smoothing : Bool) :
    marginalValue count samples smoothing =
      if smoothing = true then
        ((UInt64.ofNat count).toFloat + 0.5) / ((UInt64.ofNat samples).toFloat + 1)
      else if samples = 0 then 0
      else (UInt64.ofNat count).toFloat / (UInt64.ofNat samples).toFloat := by
  split_ifs with hsmoothing hnone
  · rw [hsmoothing, marginalValue_smoothed]
  · rw [eq_false_of_ne_true hsmoothing, hnone, marginalValue_zero]
  · rw [eq_false_of_ne_true hsmoothing, marginalValue_of_ne_zero count hnone]

/-- Whether a text consists of the symbol and the constants of a ground atom of some signatures. -/
def Layout.IsTextOf (l : Layout) (signatures : List Signature) (id : AtomId) (text : String) :
    Prop :=
  ∃ s ∈ signatures, ∃ constants, l.encode s constants = .ok id ∧
    text = s.symbol ++ "(" ++ ",".intercalate constants ++ ")"

namespace Network

variable {α : Type} {n m : Network α} {e : Evidence} {l : Layout} {query : List Signature}

/-- Whether atoms are those of a network that are of some signatures and unknown to a store, each
of them once and in the order of the ids. -/
structure Covers (n : Network α) (e : Evidence) (signatures : List Signature)
    (atoms : List NetworkAtom) : Prop where
  mem : ∀ a ∈ atoms, a ∈ n.atoms
  ascending : atoms.Pairwise fun a b => a.id.number < b.id.number
  exists_id_iff : ∀ id, (∃ a ∈ atoms, a.id = id) ↔ ∃ s ∈ signatures, e.get s id = .ok .unknown
  exists_name_iff : ∀ s ∈ signatures, ∀ constants,
    (∃ a ∈ atoms, e.layout.encode s constants = .ok a.id) ↔
      e.valueOf s constants = some .unknown

/-- The atoms of query signatures are those of their blocks. -/
theorem mem_queryAtoms (hl : l.IsLaidOut) (hlayout : n.evidence.layout = l) {a : NetworkAtom} :
    a ∈ n.queryAtoms ↔ a ∈ n.atoms ∧
      ∃ b ∈ l.blocks, b.signature ∈ n.query ∧ b.contains a.id.number = true := by
  rw [queryAtoms, List.mem_filter, Array.mem_toList_iff, hlayout, List.any_eq_true]
  refine and_congr_right fun _ => ?_
  simp only [List.mem_filterMap, ← Layout.block_eq_ok_iff_block?, hl.block_eq_ok_iff]
  constructor
  · rintro ⟨b, ⟨s, hs, hb, rfl⟩, hcontains⟩
    exact ⟨b, hb, hs, hcontains⟩
  · rintro ⟨b, hb, hs, hcontains⟩
    exact ⟨b, ⟨b.signature, hs, hb, rfl⟩, hcontains⟩

variable [WeightArithmetic α] {b : Builtins} {clauses : List (Clause α)}
  {resolved : List ResolvedClause}

/-- The query atoms of a network that was grounded are the unknown ones of the query. -/
theorem IsGrounding.exists_queryAtom_iff (h : n.IsGrounding b e clauses query resolved)
    (hm : m.IsVersionOf n) (he : e.IsStoreOf l) (hl : l.IsComplete)
    (hcontains : ∀ b ∈ l.blocks, ∀ indices id, b.encodeIndices indices = some id →
      b.contains id.number = true) {id : AtomId} :
    (∃ a ∈ m.queryAtoms, a.id = id) ↔ ∃ s ∈ query, e.get s id = .ok .unknown := by
  have hevidence : m.evidence = e := hm.evidence_eq.trans h.evidence_eq
  have hquery : m.query = query := hm.query_eq.trans h.query_eq
  have hmem : ∀ {a}, a ∈ m.queryAtoms ↔ a ∈ m.atoms ∧
      ∃ b ∈ l.blocks, b.signature ∈ query ∧ b.contains a.id.number = true := by
    intro a
    rw [mem_queryAtoms hl.toIsLaidOut (hevidence ▸ he.layout_eq), hquery]
  have hatoms : (∃ a ∈ m.atoms, a.id = id) ↔ id ∈ atomsOf e query n.constraints := by
    rw [hm.exists_atom_iff, h.atoms_eq]
    simp [NetworkAtom.fresh]
  rw [mem_atomsOf he] at hatoms
  constructor
  · rintro ⟨a, ha, rfl⟩
    obtain ⟨ha, b, hb, hs, hid⟩ := hmem.mp ha
    rcases hatoms.mp ⟨a, ha, rfl⟩ with ⟨d, hd, g, hg, hatom⟩ | hunknown
    · -- the atom of a constraint is unknown, and its signature is that of the block
      obtain ⟨s, hget⟩ := h.exists_get_eq_unknown he hl.toIsDeclared hcontains hd hg
      rw [hatom] at hget
      obtain ⟨c, hc, rfl, hid'⟩ := he.exists_block_of_get hl.toIsDeclared hget
      have hsame : b = c := Option.some.inj
        ((hl.owner?_eq_some_iff.mpr ⟨hb, hid⟩).symm.trans (hl.owner?_eq_some_iff.mpr ⟨hc, hid'⟩))
      exact ⟨b.signature, hs, hsame ▸ hget⟩
    · exact hunknown
  · rintro ⟨s, hs, hget⟩
    obtain ⟨a, ha, rfl⟩ := hatoms.mpr (.inr ⟨s, hs, hget⟩)
    obtain ⟨b, hb, rfl, hid⟩ := he.exists_block_of_get hl.toIsDeclared hget
    exact ⟨a, hmem.mpr ⟨ha, b, hb, hs, hid⟩, rfl⟩

/-- Whether records are about atoms, one for each of them and in their order: a record has the text
of the atom, which is one of some signatures, and its value. -/
def IsReportOf {β : Type} (l : Layout) (signatures : List Signature) (value : NetworkAtom → β)
    (atoms : List NetworkAtom) (records : List (String × β)) : Prop :=
  List.Forall₂ (fun a r => l.IsTextOf signatures a.id r.1 ∧ r.2 = value a) atoms records

omit [WeightArithmetic α] in
theorem covers_queryAtoms (hascending : IsAscending m.atoms) (he : e.IsStoreOf l)
    (hl : l.IsComplete)
    (hids : ∀ id, (∃ a ∈ m.queryAtoms, a.id = id) ↔ ∃ s ∈ query, e.get s id = .ok .unknown) :
    m.Covers e query m.queryAtoms := by
  refine ⟨fun a ha => ?_, hascending.pairwise_toList.filter _, hids, fun s hs constants => ?_⟩
  · exact Array.mem_toList_iff.mp (List.mem_filter.mp ha).1
  · rw [Evidence.valueOf_eq_some_iff]
    constructor
    · rintro ⟨a, ha, hid⟩
      obtain ⟨t, -, hget⟩ := (hids a.id).mp ⟨a, ha, rfl⟩
      obtain ⟨b, hb, rfl, hcontains⟩ := he.exists_block_of_get hl.toIsDeclared hget
      have hsignature := hl.signature_eq_of_encode (he.layout_eq ▸ hid) hb hcontains
      exact ⟨a.id, hid, hsignature ▸ hget⟩
    · rintro ⟨id, hid, hget⟩
      obtain ⟨a, ha, rfl⟩ := (hids id).mpr ⟨s, hs, hget⟩
      exact ⟨a, ha, hid⟩

omit [WeightArithmetic α] in
/-- Every atom that is covered has a text. -/
theorem Covers.exists_report {atoms : List NetworkAtom} (h : m.Covers e query atoms)
    (he : e.IsStoreOf l) (hl : l.IsComplete) {β : Type} (value : NetworkAtom → β) :
    ∃ records, (atoms.mapM fun a => do .ok (← l.atomText a.id, value a)) = .ok records ∧
      IsReportOf l query value atoms records := by
  refine Except.exists_mapM_eq_ok fun a ha => ?_
  obtain ⟨s, hs, hget⟩ := (h.exists_id_iff a.id).mp ⟨a, ha, rfl⟩
  obtain ⟨b, hb, rfl, hcontains⟩ := he.exists_block_of_get hl.toIsDeclared hget
  obtain ⟨constants, hencode, hdecode⟩ := hl.exists_encode_of_contains hb hcontains
  refine ⟨(_, value a), ?_, ⟨b.signature, hs, constants, hencode, rfl⟩, rfl⟩
  rw [Layout.atomText, hdecode]
  rfl

/-- Reports on the query have exactly one record for each ground atom of a query signature that the
evidence leaves unknown, in the order of the ids; and they do so at any time after grounding.  Each
record has the text of its atom, and either its state or its probability: the number of samples in
which it was true over the number of samples, zero without samples, and with half an occurrence and
one sample more if it is smoothed. -/
theorem reports_cover_query {schema : Schema} {domains : Domains} {a : Assumptions}
    {facts : List Fact} {values : List FunctionValue} {start : Evidence} {chunkSize : Nat}
    {settings : ReportSettings} (hl : Layout.build schema domains = .ok l)
    (hstop : ∀ b ∈ l.blocks, b.stop.toNat ≤ 2147483648)
    (he : Evidence.build l a facts values = .ok start) (calls : List Evidence.Call)
    (hn : ground chunkSize b (start.after calls) clauses query = .ok n) (hquery : query ≠ [])
    (hm : n.Reaches m) (hsettings : settings.allAtoms = false) :
    ∃ atoms, m.Covers (start.after calls) query atoms ∧
      (∃ records, m.marginals settings = .ok records ∧
        IsReportOf l query (fun a =>
          if settings.smoothing = true then
            ((UInt64.ofNat a.trueCount).toFloat + 0.5) / ((UInt64.ofNat m.samples).toFloat + 1)
          else if m.samples = 0 then 0
          else (UInt64.ofNat a.trueCount).toFloat / (UInt64.ofNat m.samples).toFloat) atoms
          records) ∧
      ∃ records, m.states settings = .ok records ∧
        IsReportOf l query NetworkAtom.state atoms records := by
  obtain ⟨resolved, h⟩ := isGrounding_of_ground hn
  have hcomplete := Layout.isComplete_of_build hl hstop
  have hstore := Evidence.isStoreOf_after_build hcomplete.toIsDeclared he calls
  have hversion := hm.isVersionOf
  have hcovers : m.Covers (start.after calls) query m.queryAtoms :=
    covers_queryAtoms (hversion.isAscending h.isAscending) hstore hcomplete fun id =>
      h.exists_queryAtom_iff hversion hstore hcomplete
        fun b hb _ _ hid => Layout.contains_of_encodeIndices hl hb hid
  have hreported : m.reportedAtoms settings = m.queryAtoms := by
    have hasked : m.query.isEmpty = false := by
      rw [hversion.query_eq, h.query_eq, List.isEmpty_eq_false_iff]
      exact hquery
    rw [reportedAtoms, hsettings, hasked]
    rfl
  have hlayout : m.evidence.layout = l := by
    rw [hversion.evidence_eq, h.evidence_eq, hstore.layout_eq]
  refine ⟨_, hcovers, ?_, ?_⟩
  · rw [marginals, hreported, hlayout]
    simp only [marginalValue_eq_ite]
    exact hcovers.exists_report hstore hcomplete _
  · rw [states, hreported, hlayout]
    exact hcovers.exists_report hstore hcomplete _

/-- Four short chains that start at random. -/
def fourChains : SamplerSettings :=
  { shortChain with
    chains := 4
    randomStart := true }

/-- A source of decisions that decides everything in the same way, and takes the first of
everything. -/
structure Steady where
  decision : Bool

instance : RandomSource Steady where
  happens _ r := (r.decision, r)
  below _ h r := (⟨0, h⟩, r)

/-- On the small theory, after four chains have run, of which the first starts with all atoms true
and the others with all false: it is asked twice what is wet, and where it rains, which is known of
Monday.  Rain on Tuesday, and being wet then, are true in the samples of the first chain. -/
theorem reports_cover_query_weather :
    let query : List Signature := [⟨"wet", 1⟩, ⟨"rain", 1⟩, ⟨"wet", 1⟩]
    let calls : List Evidence.Call := [.set ⟨"rain", 1⟩ Weather.rainOnMonday .true]
    ∃ start n m stats, Layout.build Weather.evidence.layout.schema Weather.evidence.layout.domains =
        .ok Weather.evidence.layout ∧
      (∀ b ∈ Weather.evidence.layout.blocks, b.stop.toNat ≤ 2147483648) ∧
      Evidence.build Weather.evidence.layout ⟨[⟨"wet", 1⟩], [⟨"rain", 1⟩], []⟩ [] [] =
        .ok start ∧
      ground 1 ⟨[], []⟩ (start.after calls) Weather.clauses query = .ok n ∧ query ≠ [] ∧
      n.sample fourChains (fun _ _ => false) (fun seed => Steady.mk (seed == 0)) =
        .ok (m, stats) ∧
      ReportSettings.default.allAtoms = false ∧ m.samples = 20 ∧
      ∃ atoms, m.Covers (start.after calls) query atoms ∧
        m.marginals .default = .ok
          [("rain(Tuesday)", 0.25), ("wet(Monday)", 1), ("wet(Tuesday)", 0.25)] ∧
        IsReportOf Weather.evidence.layout query
          (fun a => (UInt64.ofNat a.trueCount).toFloat / 20) atoms
          [("rain(Tuesday)", 0.25), ("wet(Monday)", 1), ("wet(Tuesday)", 0.25)] ∧
        m.states .default = .ok
          [("rain(Tuesday)", true), ("wet(Monday)", true), ("wet(Tuesday)", true)] ∧
        IsReportOf Weather.evidence.layout query NetworkAtom.state atoms
          [("rain(Tuesday)", true), ("wet(Monday)", true), ("wet(Tuesday)", true)] := by
  have hstop : ∀ b ∈ Weather.evidence.layout.blocks, b.stop.toNat ≤ 2147483648 := by
    decide +kernel
  have hrun : ((ground 1 ⟨[], []⟩ Weather.evidence Weather.clauses
      [⟨"wet", 1⟩, ⟨"rain", 1⟩, ⟨"wet", 1⟩]).toOption.any fun n =>
        (n.sample fourChains (fun _ _ => false) (fun seed => Steady.mk (seed == 0))).toOption.any
          fun run => decide (run.1.samples = 20 ∧
            (run.1.marginals .default).toOption =
              some [("rain(Tuesday)", 0.25), ("wet(Monday)", 1), ("wet(Tuesday)", 0.25)] ∧
            (run.1.states .default).toOption =
              some [("rain(Tuesday)", true), ("wet(Monday)", true), ("wet(Tuesday)", true)])) =
          true := by
    decide +kernel
  obtain ⟨n, hn, hrun⟩ := Except.any_toOption_iff.mp hrun
  obtain ⟨⟨m, stats⟩, hsample, hrun⟩ := Except.any_toOption_iff.mp hrun
  have hsamples : m.samples = 20 := (of_decide_eq_true hrun).1
  have hmarginals := Except.toOption_eq_some_iff.mp (of_decide_eq_true hrun).2.1
  have hstates := Except.toOption_eq_some_iff.mp (of_decide_eq_true hrun).2.2
  obtain ⟨atoms, hcovers, ⟨probabilities, hprobabilities, hreport⟩, values, hvalues, hreport'⟩ :=
    reports_cover_query Weather.build_layout hstop Weather.build_start
      [.set ⟨"rain", 1⟩ Weather.rainOnMonday .true] hn (List.cons_ne_nil _ _)
      (.sample .refl hsample) (rfl : ReportSettings.default.allAtoms = false)
  cases hmarginals.symm.trans hprobabilities
  cases hstates.symm.trans hvalues
  -- twenty samples are not none, and the default is not to smooth
  have htwenty : (UInt64.ofNat 20).toFloat = 20 := by
    decide +kernel
  have hsmoothing : ¬ ReportSettings.default.smoothing = true :=
    Bool.false_ne_true
  simp only [if_neg hsmoothing, hsamples, if_neg (by decide : ¬ 20 = 0), htwenty] at hreport
  exact ⟨_, n, m, stats, Weather.build_layout, hstop, Weather.build_start, hn,
    List.cons_ne_nil _ _, hsample, rfl, hsamples, atoms, hcovers, hmarginals, hreport, hstates,
    hreport'⟩

end Network

end LogicNetwork
