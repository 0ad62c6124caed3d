import LogicNetwork.Proofs.Evidence.Counts
import LogicNetwork.Proofs.Scoring.Names

/-!
# Lists of query signatures

A query is a list of signatures, and it reaches three loops.  Grounding checks every signature and
adds the unknown atoms of all of them, which depends on which signatures there are
(`Network.ground_withQuery`); operations on networks do not look at the query
(`Network.Reaches.withQuery`); and scoring goes through the list, so that an atom counts once for
each time that its signature is listed.

Without repetitions every atom is scored once, and whatever the list, its order makes no difference
(`Network.evaluate_query_list`).  A signature that is listed twice is scored twice
(`Network.evaluate_twice_weather`).
-/

namespace LogicNetwork

/-! ### Tallies of permuted outcomes -/

namespace Confusion

variable {recognized annotated : Bool}

/-- The number of atoms that were counted. -/
def total (c : Confusion) : Nat :=
  c.truePositives + c.falsePositives + c.falseNegatives + c.trueNegatives

theorem total_record (c : Confusion) : (c.record recognized annotated).total = c.total + 1 := by
  cases recognized <;> cases annotated <;> simp only [record, total] <;> omega

theorem tallyOf_perm {outcomes outcomes' : List (Bool × Bool)} (h : outcomes.Perm outcomes') :
    tallyOf outcomes = tallyOf outcomes' := by
  simp only [tallyOf, h.count_eq]

end Confusion

namespace Evaluation

variable {e e' : Evaluation} {outcomes outcomes' : List (Signature × Bool × Bool)}

theorem total_recordAll (e : Evaluation) (outcomes : List (Signature × Bool × Bool)) :
    (e.recordAll outcomes).overall.total = e.overall.total + outcomes.length := by
  induction outcomes generalizing e with
  | nil => rfl
  | cons x outcomes ih =>
    show ((e.record x.1 x.2.1 x.2.2).recordAll outcomes).overall.total = _
    rw [ih, List.length_cons]
    show (e.overall.record x.2.1 x.2.2).total + _ = _
    rw [Confusion.total_record]
    omega

/-- Outcomes in another order have the same tally. -/
theorem IsTallyOf.eq_of_perm (h : e.IsTallyOf outcomes) (h' : e'.IsTallyOf outcomes')
    (hperm : outcomes.Perm outcomes') : e = e' := by
  have hmem : ∀ x, x ∈ e.bySignature ↔ x ∈ e'.bySignature := by
    rintro ⟨s, counts⟩
    have hcounts : Confusion.tallyOf (outcomesOf outcomes s) =
        .tallyOf (outcomesOf outcomes' s) :=
      Confusion.tallyOf_perm ((hperm.filter _).map _)
    rw [h.mem_iff, h'.mem_iff, hcounts, (hperm.map Prod.fst).mem_iff]
  have hsame : e.bySignature = e'.bySignature :=
    eq_of_pairwise_of_mem_iff (r := fun x y => x.1.before y.1 = true)
      (fun x => by simp [Signature.before_irrefl]) Signature.before_trans h.sorted h'.sorted hmem
  have hoverall : e.overall = e'.overall := by
    rw [h.overall_eq, h'.overall_eq, hsame]
  cases e
  cases e'
  cases hsame
  cases hoverall
  rfl

end Evaluation

/-! ### Names of query atoms -/

namespace Layout

variable {l : Layout} {b : Block} {query : List Signature}

/-- The ground atoms of some signatures by name, each once. -/
def groundAtoms (l : Layout) (query : List Signature) : List (Signature × List String) :=
  (query.flatMap fun s => (l.tuples s).map (Prod.mk s)).dedup

/-- The tuples that have an id differ, because their ids do. -/
theorem nodup_numbered {schema : Schema} {domains : Domains} (hl : build schema domains = .ok l)
    (hb : b ∈ l.blocks) : (l.numbered b.signature).Nodup := by
  have hids : b.ids.map some =
      (l.numbered b.signature).map fun constants => (l.encode b.signature constants).toOption := by
    rw [← List.forall₂_eq_eq_eq, List.forall₂_map_left_iff, List.forall₂_map_right_iff]
    refine (forall₂_ids hl hb).imp fun id constants hid => ?_
    exact (Except.toOption_eq_some_iff.mpr hid.1).symm
  have hnodup : (b.ids.map some).Nodup :=
    (nodup_of_pairwise (fun id => Nat.lt_irrefl id.number) b.pairwise_ids).map
      (Option.some_injective AtomId)
  exact List.Nodup.of_map _ (hids ▸ hnodup)

/-- Without repetitions, the atoms of signatures are as many as their tuples. -/
theorem length_groundAtoms (hquery : query.Nodup)
    (htuples : ∀ s ∈ query, (l.tuples s).Nodup) :
    (l.groundAtoms query).length = (query.map fun s => (l.tuples s).length).sum := by
  have hnodup : (query.flatMap fun s => (l.tuples s).map (Prod.mk s)).Nodup := by
    rw [List.nodup_flatMap]
    refine ⟨fun s hs => (htuples s hs).map (Prod.mk_right_injective s), ?_⟩
    refine hquery.imp fun {s t} hne => List.disjoint_left.mpr fun x hs ht => ?_
    obtain ⟨constants, -, rfl⟩ := List.mem_map.mp hs
    obtain ⟨others, -, heq⟩ := List.mem_map.mp ht
    exact hne (congrArg Prod.fst heq).symm
  rw [groundAtoms, hnodup.dedup, List.length_flatMap]
  simp only [List.length_map]

end Layout

/-! ### Networks with another query -/

namespace Network

variable {α : Type} {n m : Network α} {e reference : Evidence} {l : Layout}
  {query query' : List Signature} {threshold : Float}

/-- A network with another query. -/
def withQuery (n : Network α) (query : List Signature) : Network α :=
  { n with query }

theorem atomsOf_congr {ds : List (Constraint α)} (h : ∀ s, s ∈ query' ↔ s ∈ query) :
    atomsOf e query' ds = atomsOf e query ds := by
  have hascending (query : List Signature) :
      (atomsOf e query ds).Pairwise fun x y => x.number < y.number := by
    have hsorted : (atomsOf e query ds).Pairwise fun x y => compare x y = .lt :=
      Std.TreeSet.ordered_toList
    exact hsorted.imp fun hlt => Nat.compare_eq_lt.mp hlt
  refine eq_of_pairwise_of_mem_iff (r := fun x y => x.number < y.number)
    (fun id => Nat.lt_irrefl id.number) Nat.lt_trans (hascending query') (hascending query)
    fun id => ?_
  simp only [atomsOf, Std.TreeSet.mem_toList, Std.TreeSet.mem_ofList, List.contains_iff_mem,
    List.mem_append, List.mem_flatMap, h]

theorem setState_withQuery {id : AtomId} {state : Bool} (h : n.setState id state = .ok m)
    (query : List Signature) :
    (n.withQuery query).setState id state = .ok (m.withQuery query) := by
  have hslot : (n.withQuery query).slot? id = n.slot? id := rfl
  unfold setState at h ⊢
  rw [hslot]
  cases hfound : n.slot? id with
  | none =>
    rw [hfound] at h
    cases h
  | some i =>
    rw [hfound] at h
    cases h
    rfl

/-! ### Scores of a query -/

theorem exists_of_confirms {s : Signature} {constants : List String} {truth : Bool}
    (h : reference.confirms s constants = .ok truth) :
    ∃ v, reference.valueOf s constants = some v := by
  obtain ⟨id, hid, h⟩ := Except.bind_eq_ok_iff.mp h
  obtain ⟨v, hv, -⟩ := Except.bind_eq_ok_iff.mp h
  exact ⟨v, Evidence.valueOf_eq_some_iff.mpr
    ⟨id, Except.mapError_eq_ok_iff.mp hid, Except.mapError_eq_ok_iff.mp hv⟩⟩

/-- Where scoring succeeds, the annotation has the names of all atoms that are scored. -/
theorem IsNamed.exists_valueOf (h : n.IsNamed) {scores : Evaluation}
    (hscores : n.evaluate reference threshold = .ok scores) :
    (0 ≤ threshold ∧ threshold ≤ 1) ∧ ∀ s ∈ n.query, ∀ constants ∈ n.evidence.layout.numbered s,
      ∃ v, reference.valueOf s constants = some v := by
  unfold evaluate at hscores
  split_ifs at hscores with hthreshold
  refine ⟨hthreshold, fun s hs constants hconstants => ?_⟩
  obtain ⟨b, hb, hids⟩ := h.exists_ids s hs
  obtain ⟨id, hid, -, hdecode, -⟩ := exists_of_forall₂_of_mem hids hconstants
  -- the signature is scored, in it the atom, and there its name is looked up
  obtain ⟨before, after, hsignature⟩ := Except.exists_of_foldlM_eq_ok hscores hs
  rw [scoreSignature, hb] at hsignature
  obtain ⟨before, after, hatom⟩ := Except.exists_of_foldlM_eq_ok hsignature hid
  obtain ⟨recognized, -, hatom⟩ := Except.bind_eq_ok_iff.mp hatom
  rw [hdecode] at hatom
  obtain ⟨_, ⟨⟩, hatom⟩ := Except.bind_eq_ok_iff.mp hatom
  obtain ⟨truth, htruth, -⟩ := Except.bind_eq_ok_iff.mp hatom
  exact exists_of_confirms htruth

/-- Scores that are given are those of the outcomes by name. -/
theorem IsNamed.eq_of_evaluate (h : n.IsNamed) {scores : Evaluation}
    (hscores : n.evaluate reference threshold = .ok scores) :
    scores = Evaluation.zero.recordAll
      (n.outcomes threshold reference.valueOf n.evidence.layout.numbered) := by
  obtain ⟨hthreshold, hnamed⟩ := h.exists_valueOf hscores
  rw [h.evaluate_eq hthreshold hnamed] at hscores
  exact (Except.ok.inj hscores).symm

theorem IsNamed.withQuery (h : n.IsNamed) (hquery : ∀ s ∈ query, s ∈ n.query) :
    (n.withQuery query).IsNamed :=
  ⟨h.ascending, fun s hs => h.exists_ids s (hquery s hs)⟩

/-- The order of the query makes no difference to the scores. -/
theorem IsNamed.evaluate_perm (h : n.IsNamed) (hperm : query.Perm n.query) {scores : Evaluation}
    (hscores : n.evaluate reference threshold = .ok scores) :
    (n.withQuery query).evaluate reference threshold = .ok scores := by
  obtain ⟨hthreshold, hnamed⟩ := h.exists_valueOf hscores
  have h' : (n.withQuery query).IsNamed := h.withQuery fun s hs => hperm.mem_iff.mp hs
  rw [h'.evaluate_eq hthreshold fun s hs => hnamed s (hperm.mem_iff.mp hs),
    h.eq_of_evaluate hscores]
  refine congrArg Except.ok ?_
  refine (Evaluation.isTallyOf_recordAll _).eq_of_perm (Evaluation.isTallyOf_recordAll _) ?_
  exact hperm.flatMap_right _

/-- An atom counts once for each time that its signature is listed. -/
theorem length_outcomes (truth : Signature → List String → Option TruthValue)
    (tuples : Signature → List (List String)) :
    (n.outcomes threshold truth tuples).length =
      (n.query.map fun s => (tuples s).length).sum := by
  rw [outcomes, List.length_flatMap]
  simp only [outcomesAt, List.length_map]

theorem IsNamed.total_eq (h : n.IsNamed) {scores : Evaluation}
    (hscores : n.evaluate reference threshold = .ok scores) :
    scores.overall.total =
      (n.query.map fun s => (n.evidence.layout.numbered s).length).sum := by
  rw [h.eq_of_evaluate hscores, Evaluation.total_recordAll, length_outcomes]
  exact Nat.zero_add _

/-- A store of the same layout is an annotation of all names. -/
theorem IsNamed.exists_evaluate (h : n.IsNamed) {schema : Schema} {domains : Domains}
    (hl : Layout.build schema domains = .ok l) (hlayout : n.evidence.layout = l)
    (hreference : reference.IsStoreOf l) (hthreshold : 0 ≤ threshold ∧ threshold ≤ 1) :
    ∃ scores, n.evaluate reference threshold = .ok scores := by
  refine ⟨_, h.evaluate_eq hthreshold fun s _ constants hconstants => ?_⟩
  rw [hlayout] at hconstants
  obtain ⟨id, hid⟩ := Except.isOk_iff.mp (List.mem_filter.mp hconstants).2
  obtain ⟨v, hv⟩ := hreference.exists_get_of_encode hl hid
  exact ⟨v, Evidence.valueOf_eq_some_iff.mpr ⟨id, hreference.layout_eq ▸ hid, hv⟩⟩

/-! ### Grounding and what follows -/

variable [WeightArithmetic α]

theorem ofRun_withQuery {clauses : List (Clause α)} {run : GroundingRun}
    (h : ∀ s, s ∈ query' ↔ s ∈ query) :
    ofRun e clauses query' run = (ofRun e clauses query run).map fun n => n.withQuery query' := by
  unfold ofRun
  simp only [atomsOf_congr h]
  rw [Except.map_bind]
  rfl

/-- Grounding depends on which signatures are in the query. -/
theorem ground_withQuery {chunkSize : Nat} {b : Builtins} {clauses : List (Clause α)}
    (hn : ground chunkSize b e clauses query = .ok n) (h : ∀ s, s ∈ query' ↔ s ∈ query) :
    ground chunkSize b e clauses query' = .ok (n.withQuery query') := by
  obtain ⟨resolved, hresolved, hn⟩ := Except.bind_eq_ok_iff.mp hn
  obtain ⟨totals, htotals, hn⟩ := Except.bind_eq_ok_iff.mp hn
  obtain ⟨run, hrun, hn⟩ := Except.bind_eq_ok_iff.mp (Except.mapError_eq_ok_iff.mp hn)
  obtain ⟨⟨⟩, hclauses, hresolves⟩ :=
    Except.bind_eq_ok_iff.mp (Except.mapError_eq_ok_iff.mp hresolved)
  obtain ⟨⟨⟩, hquery, hresolves⟩ := Except.bind_eq_ok_iff.mp hresolves
  have hquery' : checkQuery e.layout query' = .ok () :=
    Except.forM_eq_ok_iff.mpr fun s hs => Except.forM_eq_ok_iff.mp hquery s ((h s).mp hs)
  have hresolved' : resolveAll b e clauses query' = .ok resolved :=
    Except.bind_eq_ok_iff.mpr ⟨(), hclauses, Except.bind_eq_ok_iff.mpr ⟨(), hquery', hresolves⟩⟩
  refine Except.bind_eq_ok_iff.mpr ⟨resolved, Except.mapError_eq_ok_iff.mpr hresolved', ?_⟩
  refine Except.bind_eq_ok_iff.mpr ⟨totals, htotals, Except.mapError_eq_ok_iff.mpr ?_⟩
  refine Except.bind_eq_ok_iff.mpr ⟨run, hrun, ?_⟩
  rw [ofRun_withQuery h, hn]
  rfl

section Operations

variable {σ : Type} [RandomSource σ] {stop : Nat → Nat → Bool} {generator : UInt64 → σ}
  {stats : InferenceStats α}

theorem sample_withQuery {settings : SamplerSettings}
    (h : n.sample settings stop generator = .ok (m, stats)) (query : List Signature) :
    (n.withQuery query).sample settings stop generator = .ok (m.withQuery query, stats) := by
  obtain ⟨⟨⟩, hchecked, hrest⟩ := Except.bind_eq_ok_iff.mp h
  obtain ⟨⟨⟩, hweights, -⟩ := Except.bind_eq_ok_iff.mp hrest
  have hvalid := Except.mapError_eq_ok_iff.mp hchecked
  rw [sample_eq hvalid hweights] at h
  cases h
  exact sample_eq (n := n.withQuery query) hvalid hweights

theorem optimize_withQuery {settings : OptimizerSettings} {target : α}
    (h : n.optimize settings target stop generator = .ok (m, stats)) (query : List Signature) :
    (n.withQuery query).optimize settings target stop generator =
      .ok (m.withQuery query, stats) := by
  obtain ⟨⟨⟩, hchecked, h⟩ := Except.bind_eq_ok_iff.mp h
  refine Except.bind_eq_ok_iff.mpr ⟨(), hchecked, ?_⟩
  dsimp only at h ⊢
  -- both searches are in the same graph
  split at h
  · rename_i hbest
    cases h
    split
    · rfl
    · rename_i c hbest'
      cases hbest.symm.trans hbest'
  · rename_i c hbest
    cases h
    split
    · rename_i hbest'
      cases hbest.symm.trans hbest'
    · rename_i c' hbest'
      cases hbest.symm.trans hbest'
      rfl

end Operations

/-- Operations on networks do not look at the query. -/
theorem Reaches.withQuery (h : n.Reaches m) (query : List Signature) :
    (n.withQuery query).Reaches (m.withQuery query) := by
  induction h with
  | refl => exact .refl
  | setState _ hset ih => exact ih.setState (setState_withQuery hset query)
  | resetStates _ ih => exact ih.resetStates
  | updateWeights _ weightOf ih => exact ih.updateWeights weightOf
  | sample _ hsample ih => exact ih.sample (sample_withQuery hsample query)
  | optimize _ hoptimize ih => exact ih.optimize (optimize_withQuery hoptimize query)

/-- An atom of the query is scored once for each time that its signature is listed.  So without
repetitions the counts of a score add up to the number of ground atoms, provided that all of them
have ids.  A query of the same signatures gives the same network, to which the same can be done, and
in another order it gives the same score. -/
theorem evaluate_query_list {schema : Schema} {domains : Domains} {a : Assumptions}
    {facts : List Fact} {values : List FunctionValue} {start : Evidence} {chunkSize : Nat}
    {b : Builtins} {clauses : List (Clause α)} (hl : Layout.build schema domains = .ok l)
    (he : Evidence.build l a facts values = .ok start) (calls : List Evidence.Call)
    (hn : ground chunkSize b (start.after calls) clauses query = .ok n) (hm : n.Reaches m)
    {scores : Evaluation} (hscores : m.evaluate reference threshold = .ok scores) :
    scores.overall.total = (query.map fun s => (l.numbered s).length).sum ∧
      (query.Nodup → (∀ s ∈ query, ∀ constants ∈ l.tuples s, ∃ id, l.encode s constants = .ok id) →
        scores.overall.total = (l.groundAtoms query).length) ∧
      ∀ query', (∀ s, s ∈ query' ↔ s ∈ query) →
        ground chunkSize b (start.after calls) clauses query' = .ok (n.withQuery query') ∧
        (n.withQuery query').Reaches (m.withQuery query') ∧
        (query'.Perm query → (m.withQuery query').evaluate reference threshold = .ok scores) := by
  have hstore := Evidence.isStoreOf_after_build (Layout.isDeclared_of_build hl) he calls
  have hnamed := isNamed_of_ground hl hstore hn hm
  obtain ⟨resolved, h⟩ := isGrounding_of_ground hn
  have hquery : m.query = query := hm.isVersionOf.query_eq.trans h.query_eq
  have hlayout : m.evidence.layout = l := by
    rw [hm.isVersionOf.evidence_eq, h.evidence_eq, hstore.layout_eq]
  have htotal : scores.overall.total = (query.map fun s => (l.numbered s).length).sum := by
    rw [hnamed.total_eq hscores, hquery, hlayout]
  refine ⟨htotal, fun hnodup hids => ?_, fun query' hsame => ?_⟩
  · have htuples : ∀ s ∈ query, l.numbered s = l.tuples s :=
      fun s hs => Layout.numbered_eq_tuples (hids s hs)
    have hdistinct : ∀ s ∈ query, (l.tuples s).Nodup := by
      intro s hs
      obtain ⟨block, hblock⟩ := exists_block_of_ground hn hs
      rw [hstore.layout_eq] at hblock
      obtain ⟨hmem, rfl⟩ := Layout.mem_of_block? (Layout.block_eq_ok_iff_block?.mp hblock)
      exact htuples _ hs ▸ Layout.nodup_numbered hl hmem
    rw [htotal, Layout.length_groundAtoms hnodup hdistinct]
    exact congrArg List.sum (List.map_congr_left fun s hs => congrArg List.length (htuples s hs))
  · refine ⟨ground_withQuery hn hsame, hm.withQuery query', fun hperm => ?_⟩
    exact hnamed.evaluate_perm (hquery.symm ▸ hperm) hscores

/-! #### Rain and being wet -/

/-- In a state in which Monday is wet: rain and being wet are scored in either order. -/
theorem evaluate_query_list_weather :
    let calls : List Evidence.Call := [.set ⟨"rain", 1⟩ Weather.rainOnMonday .true]
    ∃ n m scores,
      Layout.build Weather.evidence.layout.schema Weather.evidence.layout.domains =
        .ok Weather.evidence.layout ∧
      Evidence.build Weather.evidence.layout ⟨[⟨"wet", 1⟩], [⟨"rain", 1⟩], []⟩ [] [] =
        .ok Weather.start ∧
      ground 1 ⟨[], []⟩ (Weather.start.after calls) Weather.clauses Forecast.query = .ok n ∧
      n.setState Forecast.wetOnMonday true = .ok m ∧
      m.evaluate Weather.evidence 0.5 = .ok scores ∧
      scores.overall.total = (Weather.evidence.layout.groundAtoms Forecast.query).length ∧
      Forecast.query.reverse.Perm Forecast.query ∧
      ground 1 ⟨[], []⟩ (Weather.start.after calls) Weather.clauses Forecast.query.reverse =
        .ok (n.withQuery Forecast.query.reverse) ∧
      (n.withQuery Forecast.query.reverse).Reaches (m.withQuery Forecast.query.reverse) ∧
      (m.withQuery Forecast.query.reverse).evaluate Weather.evidence 0.5 = .ok scores := by
  have hrun : ((ground 1 ⟨[], []⟩ Weather.evidence Weather.clauses
      Forecast.query).toOption.any fun n =>
        (n.setState Forecast.wetOnMonday true).isOk) = true := by
    decide +kernel
  obtain ⟨n, hn, hrun⟩ := Except.any_toOption_iff.mp hrun
  obtain ⟨m, hset⟩ := Except.isOk_iff.mp hrun
  have hm : n.Reaches m := .setState .refl hset
  obtain ⟨resolved, hgrounding⟩ := isGrounding_of_ground hn
  have hlayout : m.evidence.layout = Weather.evidence.layout := by
    rw [hm.isVersionOf.evidence_eq, hgrounding.evidence_eq]
  obtain ⟨scores, hscores⟩ := (isNamed_of_ground Weather.build_layout Weather.isStoreOf_evidence hn
    hm).exists_evaluate Weather.build_layout hlayout Weather.isStoreOf_evidence
      (by decide +kernel : (0 : Float) ≤ 0.5 ∧ (0.5 : Float) ≤ 1)
  have hperm : Forecast.query.reverse.Perm Forecast.query := List.reverse_perm _
  obtain ⟨-, htotal, hothers⟩ := evaluate_query_list Weather.build_layout Weather.build_start
    [.set ⟨"rain", 1⟩ Weather.rainOnMonday .true] hn hm hscores
  obtain ⟨hground, hreaches, hscores'⟩ := hothers _ fun _ => List.mem_reverse
  exact ⟨n, m, scores, Weather.build_layout, Weather.build_start, hn, hset, hscores,
    htotal (by decide) fun _ _ _ hconstants =>
      Weather.isComplete_layout.exists_encode_of_mem_tuples hconstants,
    hperm, hground, hreaches, hscores' hperm⟩

/-- Being wet, asked for twice, is scored twice: its two atoms count as four. -/
theorem evaluate_twice_weather :
    ∃ n twice once, ground 1 ⟨[], []⟩ Weather.evidence Weather.clauses
        [⟨"wet", 1⟩, ⟨"wet", 1⟩] = .ok n ∧
      (Weather.evidence.layout.groundAtoms [⟨"wet", 1⟩, ⟨"wet", 1⟩]).length = 2 ∧
      n.evaluate Weather.evidence 0.5 = .ok twice ∧ twice.overall.total = 4 ∧
      (n.withQuery [⟨"wet", 1⟩]).evaluate Weather.evidence 0.5 = .ok once ∧
      once.overall.total = 2 ∧ once ≠ twice := by
  have hrun : (ground 1 ⟨[], []⟩ Weather.evidence Weather.clauses
      [⟨"wet", 1⟩, ⟨"wet", 1⟩]).isOk = true := by
    decide +kernel
  obtain ⟨n, hn⟩ := Except.isOk_iff.mp hrun
  obtain ⟨resolved, hgrounding⟩ := isGrounding_of_ground hn
  have hnamed := isNamed_of_ground Weather.build_layout Weather.isStoreOf_evidence hn .refl
  have hnamed' : (n.withQuery [⟨"wet", 1⟩]).IsNamed := hnamed.withQuery (by
    rw [hgrounding.query_eq]
    simp)
  have hlayout : n.evidence.layout = Weather.evidence.layout := by rw [hgrounding.evidence_eq]
  have hthreshold : (0 : Float) ≤ 0.5 ∧ (0.5 : Float) ≤ 1 := by decide +kernel
  have hlength : (Weather.evidence.layout.numbered ⟨"wet", 1⟩).length = 2 := by
    rw [Layout.numbered_eq_tuples fun _ hconstants =>
      Weather.isComplete_layout.exists_encode_of_mem_tuples hconstants]
    decide +kernel
  obtain ⟨twice, htwice⟩ :=
    hnamed.exists_evaluate Weather.build_layout hlayout Weather.isStoreOf_evidence hthreshold
  obtain ⟨once, honce⟩ :=
    hnamed'.exists_evaluate Weather.build_layout hlayout Weather.isStoreOf_evidence hthreshold
  have hfour : twice.overall.total = 4 := by
    rw [hnamed.total_eq htwice, hgrounding.query_eq, hlayout]
    simp [hlength]
  have htwo : once.overall.total = 2 := by
    have hevidence : (n.withQuery [⟨"wet", 1⟩]).evidence.layout = Weather.evidence.layout := hlayout
    rw [hnamed'.total_eq honce, hevidence]
    simp [withQuery, hlength]
  refine ⟨n, twice, once, hn, by decide +kernel, htwice, hfour, honce, htwo, fun heq => ?_⟩
  rw [heq, hfour] at htwo
  cases htwo

end Network

end LogicNetwork
