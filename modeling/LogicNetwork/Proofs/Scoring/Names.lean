import LogicNetwork.Proofs.Layout.Capacity
import LogicNetwork.Proofs.Sampling.Accounts
import LogicNetwork.Proofs.Scoring.Tallies

/-!
# Scoring by name

A network is scored against an annotation that may number its atoms in another way, have its
constants in another order and declare more.  What counts are the names of the atoms
(`Network.IsNamed.evaluate_eq`): going through the tuples of constants of the query signatures, an
atom is recognised by its count or state if the network has it and by its evidence if not, and it is
annotated if the annotation says that the atom of the same name is true.

An atom without arguments that is numbered past the last id has no id, and it is passed over
whatever the annotation says (`Network.evaluate_eq_zero_brim`).  All other atoms of the query are
scored.
-/

namespace LogicNetwork

namespace Network

variable {α : Type} {n m : Network α} {e reference other : Evidence} {l : Layout}
  {query : List Signature} {threshold : Float} {s : Signature} {constants : List String}
  {id : AtomId}

/-! ### Atoms by id and by name -/

/-- The atom of a name, if the network has it. -/
def namedAtom? (n : Network α) (s : Signature) (constants : List String) : Option NetworkAtom :=
  n.atoms.toList.find? fun a => some a.id == (n.evidence.layout.encode s constants).toOption

/-- Whether the atom of a name is recognised: by its count if there are samples and by its state if
there are none, and outside the network by what the evidence says. -/
def recognizesName (n : Network α) (threshold : Float) (s : Signature)
    (constants : List String) : Bool :=
  match n.namedAtom? s constants with
  | some a =>
    if 0 < n.samples then decide (threshold ≤ countRatio a.trueCount n.samples) else a.state
  | none => n.evidence.valueOf s constants == some .true

/-- Of tuples of constants of a signature, whether their atoms are recognised and whether they are
true. -/
def outcomesAt (n : Network α) (threshold : Float)
    (truth : Signature → List String → Option TruthValue) (s : Signature)
    (tuples : List (List String)) : List (Signature × Bool × Bool) :=
  tuples.map fun constants =>
    (s, n.recognizesName threshold s constants, truth s constants == some .true)

/-- The outcomes of some tuples of all query signatures, in the order of the query. -/
def outcomes (n : Network α) (threshold : Float)
    (truth : Signature → List String → Option TruthValue)
    (tuples : Signature → List (List String)) : List (Signature × Bool × Bool) :=
  n.query.flatMap fun s => n.outcomesAt threshold truth s (tuples s)

/-- Outcomes depend on the tuples and on what is true of them alone. -/
theorem outcomes_congr {truth truth' : Signature → List String → Option TruthValue}
    {tuples tuples' : Signature → List (List String)}
    (htuples : ∀ s ∈ n.query, tuples' s = tuples s)
    (htruth : ∀ s ∈ n.query, ∀ constants ∈ tuples s, truth' s constants = truth s constants) :
    n.outcomes threshold truth' tuples' = n.outcomes threshold truth tuples := by
  refine List.flatMap_congr fun s hs => ?_
  rw [htuples s hs]
  refine List.map_congr_left fun constants hconstants => ?_
  rw [htruth s hs constants hconstants]

/-! ### One atom -/

theorem confirms_eq {v : TruthValue} (h : reference.valueOf s constants = some v) :
    reference.confirms s constants = .ok (reference.valueOf s constants == some .true) := by
  obtain ⟨id, hid, hget⟩ := Evidence.valueOf_eq_some_iff.mp h
  rw [h, Evidence.confirms, hid]
  show (reference.get s id).mapError _ >>= _ = _
  rw [hget]
  rfl

/-- Where every atom has a value, recognising an atom by id is recognising it by name. -/
theorem recognizes_eq (h : IsAscending n.atoms)
    (hid : n.evidence.layout.encode s constants = .ok id)
    (hget : ∃ v, n.evidence.get s id = .ok v) :
    n.recognizes threshold s id = .ok (n.recognizesName threshold s constants) := by
  have hatom : n.namedAtom? s constants = n.atom? id := by
    rw [namedAtom?, atom?_eq_find? h, hid]
    rfl
  obtain ⟨v, hv⟩ := hget
  rw [recognizes, recognizesName, hatom]
  cases n.atom? id with
  | some a => rfl
  | none =>
    dsimp only
    rw [hv, Evidence.valueOf_eq hid, hv]
    rfl

/-- Scoring an atom of a name records whether it is recognised and whether it is annotated. -/
theorem scoreAtom_eq (h : IsAscending n.atoms)
    (hid : n.evidence.layout.encode s constants = .ok id)
    (hdecode : n.evidence.layout.decode s id = .ok constants)
    (hget : ∃ v, n.evidence.get s id = .ok v)
    (hnamed : ∃ v, reference.valueOf s constants = some v) (scores : Evaluation) :
    n.scoreAtom reference threshold s scores id = .ok (scores.record s
      (n.recognizesName threshold s constants) (reference.valueOf s constants == some .true)) := by
  obtain ⟨v, hv⟩ := hnamed
  rw [scoreAtom, recognizes_eq h hid hget, hdecode]
  show (reference.confirms s constants >>= _) = _
  rw [confirms_eq hv]
  rfl

/-! ### Whole evaluations -/

/-- Whether the ids of query blocks are those of the tuples of their signatures that have one, each
with a value in the evidence, and the atoms are in the order of their ids. -/
structure IsNamed (n : Network α) : Prop where
  ascending : IsAscending n.atoms
  exists_ids : ∀ s ∈ n.query, ∃ b, n.evidence.layout.block s = .ok b ∧
    List.Forall₂ (fun id constants => n.evidence.layout.encode s constants = .ok id ∧
      n.evidence.layout.decode s id = .ok constants ∧ ∃ v, n.evidence.get s id = .ok v)
      b.ids (n.evidence.layout.numbered s)

theorem IsNamed.scoreSignature_eq (h : n.IsNamed) (hs : s ∈ n.query)
    (hnamed : ∀ constants ∈ n.evidence.layout.numbered s,
      ∃ v, reference.valueOf s constants = some v) (scores : Evaluation) :
    n.scoreSignature reference threshold scores s =
      .ok (scores.recordAll (n.outcomesAt threshold reference.valueOf s
        (n.evidence.layout.numbered s))) := by
  obtain ⟨b, hb, hids⟩ := h.exists_ids s hs
  rw [scoreSignature, hb, Evaluation.recordAll, outcomesAt, List.foldl_map]
  show b.ids.foldlM (n.scoreAtom reference threshold s) scores = _
  refine Except.foldlM_eq_ok_foldl hids (fun id constants hconstants hid => ?_) scores
  exact scoreAtom_eq h.ascending hid.1 hid.2.1 hid.2.2 (hnamed constants hconstants)

/-- The score of a network is the tally of its outcomes by name. -/
theorem IsNamed.evaluate_eq (h : n.IsNamed) (hthreshold : 0 ≤ threshold ∧ threshold ≤ 1)
    (hnamed : ∀ s ∈ n.query, ∀ constants ∈ n.evidence.layout.numbered s,
      ∃ v, reference.valueOf s constants = some v) :
    n.evaluate reference threshold = .ok (Evaluation.zero.recordAll
      (n.outcomes threshold reference.valueOf n.evidence.layout.numbered)) := by
  have hstep : ∀ s, ∀ t ∈ n.query, s = t → ∀ scores,
      n.scoreSignature reference threshold scores s =
        .ok (scores.recordAll (n.outcomesAt threshold reference.valueOf t
          (n.evidence.layout.numbered t))) := by
    rintro s _ hs rfl
    exact h.scoreSignature_eq hs (hnamed s hs)
  rw [evaluate, if_pos hthreshold, Except.foldlM_eq_ok_foldl (List.forall₂_refl n.query) hstep,
    Evaluation.recordAll, outcomes, List.foldl_flatMap]
  rfl

/-- Scores depend on the values of names alone. -/
theorem IsNamed.evaluate_congr (h : n.IsNamed) (hthreshold : 0 ≤ threshold ∧ threshold ≤ 1)
    (hnamed : ∀ s ∈ n.query, ∀ constants ∈ n.evidence.layout.numbered s,
      ∃ v, reference.valueOf s constants = some v)
    (hsame : ∀ s ∈ n.query, ∀ constants ∈ n.evidence.layout.numbered s,
      other.valueOf s constants = reference.valueOf s constants) :
    n.evaluate other threshold = n.evaluate reference threshold := by
  have hnamed' : ∀ s ∈ n.query, ∀ constants ∈ n.evidence.layout.numbered s,
      ∃ v, other.valueOf s constants = some v := by
    intro s hs constants hconstants
    rw [hsame s hs constants hconstants]
    exact hnamed s hs constants hconstants
  rw [h.evaluate_eq hthreshold hnamed, h.evaluate_eq hthreshold hnamed',
    outcomes_congr (fun _ _ => rfl) hsame]

variable [WeightArithmetic α]

/-- This is so after grounding, whatever was done to the network since. -/
theorem isNamed_of_ground {schema : Schema} {domains : Domains} {chunkSize : Nat} {b : Builtins}
    {clauses : List (Clause α)} (hl : Layout.build schema domains = .ok l) (he : e.IsStoreOf l)
    (hn : ground chunkSize b e clauses query = .ok n) (hm : n.Reaches m) : m.IsNamed := by
  obtain ⟨resolved, h⟩ := isGrounding_of_ground hn
  have hversion := hm.isVersionOf
  have hevidence : m.evidence = e := hversion.evidence_eq.trans h.evidence_eq
  refine ⟨hversion.isAscending h.isAscending, fun s hs => ?_⟩
  rw [hversion.query_eq, h.query_eq] at hs
  obtain ⟨b, hb⟩ := exists_block_of_ground hn hs
  rw [he.layout_eq] at hb
  rw [hevidence, he.layout_eq]
  refine ⟨b, hb, ?_⟩
  obtain ⟨hmem, rfl⟩ := Layout.mem_of_block? (Layout.block_eq_ok_iff_block?.mp hb)
  exact (Layout.forall₂_ids hl hmem).imp fun id constants hid =>
    ⟨hid.1, hid.2, he.exists_get_of_encode hl hid.1⟩

/-- Scoring goes by names.  If every name of a query atom can be encoded in the layout of the
annotation, scoring succeeds, and what it counts are the outcomes of the names of those atoms that
have an id, which is to say of all names if every atom of the query has one.  Any other annotation
that gives the names the same values has the same score. -/
theorem evaluate_by_name {schema schema' : Schema} {domains domains' : Domains} {l' : Layout}
    {a a' : Assumptions} {facts facts' : List Fact} {values values' : List FunctionValue}
    {start start' : Evidence} {chunkSize : Nat} {b : Builtins} {clauses : List (Clause α)}
    (hl : Layout.build schema domains = .ok l) (he : Evidence.build l a facts values = .ok start)
    (calls : List Evidence.Call)
    (hn : ground chunkSize b (start.after calls) clauses query = .ok n) (hm : n.Reaches m)
    (hl' : Layout.build schema' domains' = .ok l')
    (he' : Evidence.build l' a' facts' values' = .ok start') (calls' : List Evidence.Call)
    (hnames : ∀ s ∈ query, ∀ constants ∈ l.tuples s, ∃ id, l'.encode s constants = .ok id)
    (hthreshold : 0 ≤ threshold ∧ threshold ≤ 1) :
    ∃ scores, m.evaluate (start'.after calls') threshold = .ok scores ∧
      scores.IsTallyOf (m.outcomes threshold (start'.after calls').valueOf l.numbered) ∧
      ((∀ s ∈ query, ∀ constants ∈ l.tuples s, ∃ id, l.encode s constants = .ok id) →
        scores.IsTallyOf (m.outcomes threshold (start'.after calls').valueOf l.tuples)) ∧
      ∀ other : Evidence, (∀ s ∈ query, ∀ constants ∈ l.tuples s,
          other.valueOf s constants = (start'.after calls').valueOf s constants) →
        m.evaluate other threshold = .ok scores := by
  have hstore := Evidence.isStoreOf_after_build (Layout.isDeclared_of_build hl) he calls
  have hstore' := Evidence.isStoreOf_after_build (Layout.isDeclared_of_build hl') he' calls'
  have hnamed := isNamed_of_ground hl hstore hn hm
  obtain ⟨resolved, h⟩ := isGrounding_of_ground hn
  have hquery : m.query = query := hm.isVersionOf.query_eq.trans h.query_eq
  have hlayout : m.evidence.layout = l := by
    rw [hm.isVersionOf.evidence_eq, h.evidence_eq, hstore.layout_eq]
  have hmem : ∀ s, ∀ constants ∈ l.numbered s, constants ∈ l.tuples s :=
    fun s constants hconstants => (List.mem_filter.mp hconstants).1
  have hvalues : ∀ s ∈ m.query, ∀ constants ∈ m.evidence.layout.numbered s,
      ∃ v, (start'.after calls').valueOf s constants = some v := by
    intro s hs constants hconstants
    rw [hquery] at hs
    rw [hlayout] at hconstants
    obtain ⟨id, hid⟩ := hnames s hs constants (hmem s constants hconstants)
    obtain ⟨v, hv⟩ := hstore'.exists_get_of_encode hl' hid
    exact ⟨v, Evidence.valueOf_eq_some_iff.mpr ⟨id, hstore'.layout_eq ▸ hid, hv⟩⟩
  have hscores := hnamed.evaluate_eq hthreshold hvalues
  rw [hlayout] at hscores
  have htally := Evaluation.isTallyOf_recordAll
    (m.outcomes threshold (start'.after calls').valueOf l.numbered)
  refine ⟨_, hscores, htally, fun hids => ?_, fun other hsame => ?_⟩
  · have hsame : m.outcomes threshold (start'.after calls').valueOf l.numbered =
        m.outcomes threshold (start'.after calls').valueOf l.tuples :=
      outcomes_congr (fun s hs => Layout.numbered_eq_tuples (hids s (hquery ▸ hs)))
        fun _ _ _ _ => rfl
    rw [← hsame]
    exact htally
  · rw [hnamed.evaluate_congr hthreshold hvalues, hscores]
    intro s hs constants hconstants
    rw [hquery] at hs
    rw [hlayout] at hconstants
    exact hsame s hs constants (hmem s constants hconstants)

end Network

/-! #### Another forecast -/

namespace Forecast

/-- The days of another forecast: one more, and in another order. -/
def days : Domain where
  name := "day"
  constants := #["Sunday", "Tuesday", "Monday"]
  index := Domain.numbering #["Sunday", "Tuesday", "Monday"]
  nodup := by decide
  index_eq := rfl

/-- The other forecast is about the cold as well. -/
def layout : Layout where
  schema := ⟨[⟨"wet", ["day"]⟩, ⟨"cold", ["day"]⟩, ⟨"rain", ["day"]⟩], []⟩
  domains := ⟨[days], List.pairwise_singleton _ _⟩
  blocks := [⟨⟨"wet", 1⟩, [days], [1], 1, 3⟩, ⟨⟨"cold", 1⟩, [days], [1], 4, 3⟩,
    ⟨⟨"rain", 1⟩, [days], [1], 7, 3⟩]

/-- The number of being wet on Monday. -/
def wetOnMonday : AtomId :=
  (AtomId.ofNat? 3).getD default

/-- It is asked where it rains and what is wet. -/
def query : List Signature :=
  [⟨"rain", 1⟩, ⟨"wet", 1⟩]

/-- The other forecast has every name that the first one has. -/
theorem exists_encode : ∀ s ∈ query, ∀ constants ∈ Weather.evidence.layout.tuples s,
    ∃ id, layout.encode s constants = .ok id := by
  have hcomplete : layout.IsComplete :=
    Layout.isComplete_of_build (rfl : Layout.build layout.schema layout.domains = .ok _)
      (by decide +kernel)
  have hsame : ∀ s ∈ query, ∀ constants ∈ Weather.evidence.layout.tuples s,
      constants ∈ layout.tuples s := by
    decide +kernel
  exact fun s hs constants hconstants =>
    hcomplete.exists_encode_of_mem_tuples (hsame s hs constants hconstants)

end Forecast

namespace Network

/-- On the small theory, after a chain has run: the other forecast says that Monday is wet. -/
theorem evaluate_by_name_weather :
    let calls : List Evidence.Call := [.set ⟨"rain", 1⟩ Weather.rainOnMonday .true]
    let calls' : List Evidence.Call := [.set ⟨"wet", 1⟩ Forecast.wetOnMonday .true]
    ∃ start start' n m stats,
      Layout.build Weather.evidence.layout.schema Weather.evidence.layout.domains =
        .ok Weather.evidence.layout ∧
      Evidence.build Weather.evidence.layout ⟨[⟨"wet", 1⟩], [⟨"rain", 1⟩], []⟩ [] [] =
        .ok start ∧
      ground 1 ⟨[], []⟩ (start.after calls) Weather.clauses Forecast.query = .ok n ∧
      n.sample shortChain (fun _ _ => false) (fun _ => SearchState.First.first) = .ok (m, stats) ∧
      Layout.build Forecast.layout.schema Forecast.layout.domains = .ok Forecast.layout ∧
      Evidence.build Forecast.layout ⟨[], [], []⟩ [] [] = .ok start' ∧
      (∀ s ∈ Forecast.query, ∀ constants ∈ Weather.evidence.layout.tuples s,
        ∃ id, Forecast.layout.encode s constants = .ok id) ∧
      ((0 : Float) ≤ 0.5 ∧ (0.5 : Float) ≤ 1) ∧
      ∃ scores, m.evaluate (start'.after calls') 0.5 = .ok scores ∧
        scores.IsTallyOf (m.outcomes 0.5 (start'.after calls').valueOf
          Weather.evidence.layout.tuples) ∧
        ∀ other : Evidence, (∀ s ∈ Forecast.query,
            ∀ constants ∈ Weather.evidence.layout.tuples s,
              other.valueOf s constants = (start'.after calls').valueOf s constants) →
          m.evaluate other 0.5 = .ok scores := by
  have hlayout' : Layout.build Forecast.layout.schema Forecast.layout.domains =
      .ok Forecast.layout := rfl
  have hbuild' : Evidence.build Forecast.layout ⟨[], [], []⟩ [] [] =
      .ok ⟨Forecast.layout, Forecast.layout.blocks.map fun b => .empty b true, []⟩ := rfl
  have hthreshold : (0 : Float) ≤ 0.5 ∧ (0.5 : Float) ≤ 1 := by decide +kernel
  have hrun : ((ground 1 ⟨[], []⟩ Weather.evidence Weather.clauses
      Forecast.query).toOption.any fun n =>
        (n.sample shortChain (fun _ _ => false) (fun _ => SearchState.First.first)).isOk) =
          true := by
    decide +kernel
  obtain ⟨n, hn, hsample⟩ := Except.any_toOption_iff.mp hrun
  obtain ⟨⟨m, stats⟩, hsample⟩ := Except.isOk_iff.mp hsample
  obtain ⟨scores, hscores, -, htally, hothers⟩ := evaluate_by_name Weather.build_layout
    Weather.build_start [.set ⟨"rain", 1⟩ Weather.rainOnMonday .true] hn (.sample .refl hsample)
    hlayout' hbuild' [.set ⟨"wet", 1⟩ Forecast.wetOnMonday .true] Forecast.exists_encode hthreshold
  exact ⟨_, _, n, m, stats, Weather.build_layout, Weather.build_start, hn, hsample, hlayout',
    hbuild', Forecast.exists_encode, hthreshold, scores, hscores,
    htally fun _ _ _ hconstants =>
      Weather.isComplete_layout.exists_encode_of_mem_tuples hconstants,
    hothers⟩

end Network

/-! #### Past the last id -/

namespace Brim

/-- The only atom of an annotation is winning. -/
def annotation : Layout where
  schema := ⟨[⟨"win", []⟩], []⟩
  domains := .empty
  blocks := [⟨⟨"win", 0⟩, [], [], 1, 1⟩]

end Brim

namespace Network

/-- Winning is annotated under the only name that the query has, but it is not scored. -/
theorem evaluate_eq_zero_brim :
    ∃ l e reference, ∃ n : Network ℚ, Layout.build Brim.schema Brim.domains = .ok l ∧
      Evidence.build l ⟨[], [], []⟩ [] [] = .ok e ∧
      ground 1 ⟨[], []⟩ e [] [⟨"win", 0⟩] = .ok n ∧ l.tuples ⟨"win", 0⟩ = [[]] ∧
      Layout.build Brim.annotation.schema Brim.annotation.domains = .ok Brim.annotation ∧
      Evidence.build Brim.annotation ⟨[], [], []⟩ [⟨"win", [], .true⟩] [] = .ok reference ∧
      reference.valueOf ⟨"win", 0⟩ [] = some .true ∧
      n.evaluate reference 0.5 = .ok .zero ∧
      ¬ Evaluation.zero.IsTallyOf (n.outcomes 0.5 reference.valueOf l.tuples) := by
  have hrun : ((Layout.build Brim.schema Brim.domains).toOption.any fun l =>
      l.tuples ⟨"win", 0⟩ == [[]] &&
      (Evidence.build l ⟨[], [], []⟩ [] []).toOption.any fun e =>
        (ground 1 ⟨[], []⟩ e ([] : List (Clause ℚ)) [⟨"win", 0⟩]).toOption.any fun n =>
          (Evidence.build Brim.annotation ⟨[], [], []⟩ [⟨"win", [], .true⟩] []).toOption.any
            fun reference => reference.valueOf ⟨"win", 0⟩ [] == some .true &&
              ((n.evaluate reference 0.5).toOption == some .zero &&
                (n.outcomes 0.5 reference.valueOf l.tuples).map Prod.fst == [⟨"win", 0⟩])) =
                  true := by
    decide +kernel
  obtain ⟨l, hl, hrun⟩ := Except.any_toOption_iff.mp hrun
  obtain ⟨htuples, hrun⟩ := Bool.and_eq_true_iff.mp hrun
  obtain ⟨e, he, hrun⟩ := Except.any_toOption_iff.mp hrun
  obtain ⟨n, hn, hrun⟩ := Except.any_toOption_iff.mp hrun
  obtain ⟨reference, hreference, hrun⟩ := Except.any_toOption_iff.mp hrun
  simp only [Bool.and_eq_true, beq_iff_eq] at htuples hrun
  obtain ⟨hvalue, hzero, hnames⟩ := hrun
  refine ⟨l, e, reference, n, hl, he, hn, htuples, rfl, hreference, hvalue,
    Except.toOption_eq_some_iff.mp hzero, fun htally => ?_⟩
  -- the signature has an outcome, but no counts
  have hcounts := (htally.mem_iff ⟨"win", 0⟩ _).mpr ⟨by rw [hnames]; simp, rfl⟩
  cases hcounts

end Network

end LogicNetwork
