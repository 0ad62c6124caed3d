import LogicNetwork.Proofs.Evidence.History

/-!
# Functions and their auxiliary atoms

The value of a function is kept twice: by numbers in the table of the function, and as the truth of
an atom of its auxiliary predicate.  As long as nothing else writes to the auxiliary predicates, the
two agree (`Evidence.isFunctional_of_build`): a table has a value at some arguments if and only if
the atom of the value and the arguments is true.  So at most one of these atoms is true, and since
recording another value fails, a value that is known never changes.

An atom that is written becomes true alone, because no two tuples of numbers share an id
(`Evidence.isTrueAt_put_true`), and a table that is put in changes the value at its arguments alone
(`Evidence.valueAt?_putFunction`).  So recording a value changes both in the same place
(`Evidence.IsStoreOf.mirrors_record`), and no other call touches them
(`Evidence.IsStoreOf.mirrors_perform`).
-/

namespace LogicNetwork

/-- The signatures of the auxiliary predicates. -/
def Schema.auxiliaries (s : Schema) : List Signature :=
  s.functions.map fun f => f.auxiliary.signature

/-! ### Atoms of numbers -/

namespace Layout

variable {l : Layout} {s : Signature} {constants : List String} {indices others : List Nat}
  {id : AtomId}

/-- The id of a tuple of constant numbers of a signature. -/
def atomOf? (l : Layout) (s : Signature) (indices : List Nat) : Option AtomId :=
  (l.block? s).bind fun b => b.encodeIndices indices

/-- The id of constants is the one of their numbers. -/
theorem atomOf?_of_encode (h : l.encode s constants = .ok id) :
    ∃ b, l.block? s = some b ∧ ∃ indices,
      Block.lookup b.signature 0 b.domains constants = .ok indices ∧
        l.atomOf? s indices = some id := by
  obtain ⟨b, hb, h⟩ := Except.bind_eq_ok_iff.mp h
  rw [block_eq_ok_iff_block?] at hb
  unfold Block.encode at h
  split_ifs at h
  obtain ⟨indices, hindices, h⟩ := Except.bind_eq_ok_iff.mp h
  cases hid : b.encodeIndices indices with
  | none =>
    rw [hid] at h
    cases h
  | some found =>
    rw [hid] at h
    cases h
    refine ⟨b, hb, indices, hindices, ?_⟩
    rw [atomOf?, hb, Option.bind_some, hid]

/-- No two tuples of a signature share an id. -/
theorem IsLaidOut.atomOf?_injective (h : l.IsLaidOut) (hid : l.atomOf? s indices = some id)
    (hother : l.atomOf? s others = some id) : indices = others := by
  obtain ⟨b, hb, hid⟩ := Option.bind_eq_some_iff.mp hid
  rw [atomOf?, hb, Option.bind_some] at hother
  have hpositional := h.positional b (List.mem_of_find?_eq_some hb)
  rw [Block.encodeIndices_eq_some_iff_decodeIndices hpositional] at hid hother
  rw [hid] at hother
  exact Except.ok.inj hother

/-- Functions with one auxiliary predicate have one signature. -/
theorem IsDeclared.auxiliary_eq_iff (h : l.IsDeclared) {f g : FunctionDecl}
    (hf : f ∈ l.schema.functions) (hg : g ∈ l.schema.functions) :
    f.auxiliary.signature = g.auxiliary.signature ↔ f.signature = g.signature := by
  constructor
  · intro heq
    have hnodup := h.nodup_tables
    rw [Schema.tables, List.map_append, List.nodup_append, List.map_map] at hnodup
    rw [List.inj_on_of_nodup_map hnodup.2.1 hf hg heq]
  · intro heq
    rw [List.inj_on_of_nodup_map h.nodup_functions hf hg heq]

end Layout

/-! ### Values that stay -/

/-- Whether a table of the same function has all the values of another. -/
structure FunctionTable.Extends (larger t : FunctionTable) : Prop where
  decl_eq : larger.decl = t.decl
  result_eq : larger.result = t.result
  domains_eq : larger.domains = t.domains
  value?_eq : ∀ arguments v, t.value? arguments = some v → larger.value? arguments = some v

namespace FunctionTable.Extends

variable {t larger last : FunctionTable} {value : String} {arguments : List String}

protected theorem refl (t : FunctionTable) : t.Extends t :=
  ⟨rfl, rfl, rfl, fun _ _ h => h⟩

protected theorem trans (h : last.Extends larger) (h' : larger.Extends t) : last.Extends t :=
  ⟨h.decl_eq.trans h'.decl_eq, h.result_eq.trans h'.result_eq, h.domains_eq.trans h'.domains_eq,
    fun arguments v hv => h.value?_eq arguments v (h'.value?_eq arguments v hv)⟩

theorem lookup_eq (h : larger.Extends t) :
    larger.lookup value arguments = t.lookup value arguments := by
  unfold lookup signature
  rw [h.decl_eq, h.result_eq, h.domains_eq]

theorem of_insert (h : t.insert value arguments = .ok larger) : larger.Extends t := by
  obtain ⟨v, indices, -, hdecl, hresult, hdomains, hsame, hvalue⟩ := insert_eq_ok h
  refine ⟨hdecl, hresult, hdomains, fun others w hw => ?_⟩
  rw [hvalue]
  split_ifs with hothers
  · rw [hothers] at hw
    rw [hsame w hw]
  · exact hw

end FunctionTable.Extends

namespace Evidence

variable {e e' : Evidence} {l : Layout} {s other : Signature} {id : AtomId} {v : TruthValue}
  {indices : List Nat} {f : FunctionValue}

/-- The number of the value of a function at a tuple of argument numbers. -/
def valueAt? (e : Evidence) (s : Signature) (arguments : List Nat) : Option Nat :=
  (e.function? s).bind fun t => t.value? arguments

/-- Whether a value of a function is known, by the numbers of its constants. -/
def Keeps (e : Evidence) (f : FunctionValue) : Prop :=
  ∃ t v arguments, e.function? f.signature = some t ∧
    t.lookup f.value f.arguments = .ok (v, arguments) ∧ t.value? arguments = some v

/-- Whether a store has the functions of another, with all their values. -/
def Extends (e' e : Evidence) : Prop :=
  ∀ s t, e.function? s = some t → ∃ larger, e'.function? s = some larger ∧ larger.Extends t

namespace Extends

protected theorem refl (e : Evidence) : e.Extends e :=
  fun _ t ht => ⟨t, ht, .refl t⟩

protected theorem trans {last : Evidence} (h : last.Extends e') (h' : e'.Extends e) :
    last.Extends e := by
  intro s t ht
  obtain ⟨larger, hlarger, hextends⟩ := h' s t ht
  obtain ⟨largest, hlargest, hextends'⟩ := h s larger hlarger
  exact ⟨largest, hlargest, hextends'.trans hextends⟩

theorem valueAt?_eq (h : e'.Extends e) {arguments : List Nat} {v : Nat}
    (hv : e.valueAt? s arguments = some v) : e'.valueAt? s arguments = some v := by
  obtain ⟨t, ht, hv⟩ := Option.bind_eq_some_iff.mp hv
  obtain ⟨larger, hlarger, hextends⟩ := h s t ht
  rw [valueAt?, hlarger, Option.bind_some, hextends.value?_eq arguments v hv]

theorem keeps (h : e'.Extends e) (hf : e.Keeps f) : e'.Keeps f := by
  obtain ⟨t, v, arguments, ht, hlookup, hv⟩ := hf
  obtain ⟨larger, hlarger, hextends⟩ := h f.signature t ht
  exact ⟨larger, v, arguments, hlarger, hextends.lookup_eq.trans hlookup,
    hextends.value?_eq arguments v hv⟩

theorem of_functions_eq (h : e'.functions = e.functions) : e'.Extends e := by
  intro s t ht
  refine ⟨t, ?_, .refl t⟩
  rw [function?, h]
  exact ht

theorem putFunction {t larger : FunctionTable} (hfunction : e.function? s = some t)
    (hlarger : larger.Extends t) : (e.putFunction larger).Extends e := by
  have hsignature : larger.signature = s := by
    rw [← (mem_of_function? hfunction).2, FunctionTable.signature, hlarger.decl_eq]
    rfl
  intro other u hu
  rw [function?_putFunction, hu, Option.map_some]
  split_ifs with hsame
  · -- the table that is replaced
    rw [(mem_of_function? hu).2, hsignature] at hsame
    rw [← hsame, hu] at hfunction
    cases hfunction
    exact ⟨larger, rfl, hlarger⟩
  · exact ⟨u, rfl, .refl u⟩

theorem settle_assert (e : Evidence) (s : Signature) (constants : List String) (v : TruthValue) :
    (e.settle ((e.assert s constants v).map Prod.snd)).1.Extends e := by
  rcases e.assert_cases s constants v with ⟨cause, hassert⟩ | ⟨id, -, -, hassert⟩
  · rw [hassert]
    exact .refl e
  · rw [hassert]
    exact .of_functions_eq rfl

end Extends

/-- A call adds at most a value. -/
theorem extends_perform (e : Evidence) (c : Call) : (e.perform c).1.Extends e := by
  cases c with
  | set s id v =>
    show (e.settle (e.set s id v)).1.Extends e
    rcases e.set_cases s id v with ⟨cause, hset⟩ | ⟨-, hset⟩
    · rw [hset]
      exact .refl e
    · rw [hset]
      exact .of_functions_eq rfl
  | assert s constants v => exact .settle_assert e s constants v
  | record f =>
    show (e.record f).1.Extends e
    rcases e.record_cases f with ⟨cause, hrecord⟩ | ⟨t, larger, hfunction, hinsert, hrecord⟩
    · rw [hrecord]
      exact .refl e
    · rw [hrecord]
      exact (Extends.settle_assert _ _ _ _).trans (.putFunction hfunction (.of_insert hinsert))

/-- Whatever calls follow, the values that are known stay. -/
theorem extends_after (e : Evidence) (calls : List Call) : (e.after calls).Extends e := by
  induction calls generalizing e with
  | nil => exact .refl e
  | cons c calls ih => exact (ih (e.perform c).1).trans (e.extends_perform c)

/-- A value that was recorded with success is known. -/
theorem keeps_record (h : (e.record f).2 = .ok ()) : (e.record f).1.Keeps f := by
  rcases e.record_cases f with ⟨cause, hrecord⟩ | ⟨t, larger, hfunction, hinsert, hrecord⟩
  · rw [hrecord] at h
    cases h
  · obtain ⟨v, arguments, hlookup, hdecl, -, -, -, hvalue⟩ := FunctionTable.insert_eq_ok hinsert
    have hextends := FunctionTable.Extends.of_insert hinsert
    have hput : (e.putFunction larger).function? f.signature = some larger := by
      have hsignature : larger.signature = t.signature := by
        rw [FunctionTable.signature, hdecl]
        rfl
      rw [function?_putFunction, hfunction, Option.map_some, if_pos hsignature.symm]
    rw [hrecord]
    refine Extends.keeps (.settle_assert _ _ _ _) ⟨larger, v, arguments, hput, ?_, ?_⟩
    · rw [hextends.lookup_eq, hlookup]
    · rw [hvalue, if_pos rfl]

/-- The values recorded with success among some calls are known after them. -/
theorem keeps_after {calls : List Call} (hf : .record f ∈ e.successes calls) :
    (e.after calls).Keeps f := by
  induction calls generalizing e with
  | nil => cases hf
  | cons c calls ih =>
    rw [successes] at hf
    show ((e.perform c).1.after calls).Keeps f
    split_ifs at hf with hok
    · rcases List.mem_cons.mp hf with rfl | hf
      · obtain ⟨⟨⟩, hrecord⟩ := Except.isOk_iff.mp hok
        exact (extends_after _ calls).keeps (keeps_record hrecord)
      · exact ih hf
    · exact ih hf

/-! ### Agreement -/

/-- Whether the atom of a tuple of constant numbers is true. -/
def IsTrueAt (e : Evidence) (s : Signature) (indices : List Nat) : Prop :=
  ∃ id, e.layout.atomOf? s indices = some id ∧ e.get s id = .ok .true

/-- Whether the values of functions are the true atoms of their auxiliary predicates. -/
def Mirrors (e : Evidence) (l : Layout) : Prop :=
  ∀ f ∈ l.schema.functions, ∀ v arguments,
    e.valueAt? f.signature arguments = some v ↔ e.IsTrueAt f.auxiliary.signature (v :: arguments)

theorem isTrueAt_put_of_ne (hid : ∃ t, e.tableOf s id = .ok t) (hne : s ≠ other) :
    (e.put s id v).IsTrueAt other indices ↔ e.IsTrueAt other indices := by
  refine exists_congr fun id' => and_congr_right fun _ => ?_
  rw [get_put hid, if_neg fun hboth => hne hboth.1]

/-- Making an atom true leaves the others as they were. -/
theorem isTrueAt_put_true (hl : e.layout.IsLaidOut) (hid : ∃ t, e.tableOf s id = .ok t)
    {written : List Nat} (hatom : e.layout.atomOf? s written = some id) :
    (e.put s id .true).IsTrueAt other indices ↔
      other = s ∧ indices = written ∨ e.IsTrueAt other indices := by
  by_cases hother : s = other
  · subst hother
    rw [eq_self_iff_true, true_and]
    constructor
    · rintro ⟨id', hid', htrue⟩
      rw [get_put hid] at htrue
      by_cases hsame : id = id'
      · subst hsame
        exact .inl (hl.atomOf?_injective hid' hatom)
      · rw [if_neg fun hboth => hsame hboth.2] at htrue
        exact .inr ⟨id', hid', htrue⟩
    · rintro (rfl | ⟨id', hid', htrue⟩)
      · refine ⟨id, hatom, ?_⟩
        rw [get_put hid, if_pos ⟨rfl, rfl⟩]
      · refine ⟨id', hid', ?_⟩
        rw [get_put hid]
        split_ifs
        · rfl
        · exact htrue
  · rw [isTrueAt_put_of_ne hid hother, or_iff_right fun hboth => hother hboth.1.symm]

/-- Putting in a table with one more value changes the value at its arguments alone. -/
theorem valueAt?_putFunction {t larger : FunctionTable} (hfunction : e.function? s = some t)
    (hdecl : larger.decl = t.decl) {w : Nat} {arguments : List Nat}
    (hvalue : ∀ others,
      larger.value? others = if others = arguments then some w else t.value? others)
    (others : List Nat) :
    (e.putFunction larger).valueAt? other others =
      if other = s ∧ others = arguments then some w else e.valueAt? other others := by
  have hlarger : larger.signature = s := by
    rw [← (mem_of_function? hfunction).2, FunctionTable.signature, hdecl]
    rfl
  by_cases hother : other = s
  · subst hother
    rw [valueAt?, valueAt?, function?_putFunction, hfunction, Option.map_some, Option.bind_some,
      Option.bind_some, if_pos ((mem_of_function? hfunction).2.trans hlarger.symm), hvalue]
    exact if_congr (and_iff_right rfl).symm rfl rfl
  · rw [valueAt?, valueAt?, function?_putFunction_of_ne fun heq => hother (heq.symm.trans hlarger),
      if_neg fun hboth => hother hboth.1]

/-- Whether a call leaves the auxiliary predicates to the functions. -/
def Call.Spares (schema : Schema) : Call → Prop
  | set s _ _ => s ∉ schema.auxiliaries
  | assert s _ _ => s ∉ schema.auxiliaries
  | record _ => True

/-- Writing an atom of a predicate that is not auxiliary. -/
theorem Mirrors.put (hm : e.Mirrors l) (hid : ∃ t, e.tableOf s id = .ok t)
    (hs : s ∉ l.schema.auxiliaries) : (e.put s id v).Mirrors l := by
  intro f hf w arguments
  have hne : s ≠ f.auxiliary.signature := fun heq => hs (heq ▸ List.mem_map_of_mem hf)
  rw [isTrueAt_put_of_ne hid hne, ← hm f hf w arguments]
  rfl

namespace IsStoreOf

/-- Once a value has been put into the table of its function, its auxiliary atom is the one of the
numbers that were put there. -/
theorem atomOf?_of_lookup (h : e.IsStoreOf l) (hl : l.IsRegular) {t : FunctionTable}
    (hfunction : e.function? f.signature = some t) {w : Nat} {arguments : List Nat}
    (hlookup : t.lookup f.value f.arguments = .ok (w, arguments))
    (hid : l.encode f.auxiliary (f.value :: f.arguments) = .ok id) :
    l.atomOf? f.auxiliary (w :: arguments) = some id := by
  obtain ⟨ht, hsignature⟩ := mem_of_function? hfunction
  obtain ⟨c, hc, hauxiliary, hdomains⟩ := h.exists_auxiliary_block hl.toIsDeclared ht
  obtain ⟨b, hb, indices, hindices, hatom⟩ := Layout.atomOf?_of_encode hid
  -- the block of the predicate is the one with the domains of the function
  obtain ⟨hb, hfound⟩ := Layout.mem_of_block? hb
  have hsame : b = c := List.inj_on_of_nodup_map hl.nodup hb hc
    (hfound.trans (hauxiliary.trans (FunctionTable.auxiliary_eq hsignature)).symm)
  subst hsame
  obtain ⟨hw, harguments⟩ := FunctionTable.lookup_eq_ok_iff.mp hlookup
  have harity : f.arguments.length = t.domains.length := by
    rw [h.length_domains ht, hsignature]
    rfl
  have hnumbers : Block.lookup b.signature 0 (t.result :: t.domains) (f.value :: f.arguments) =
      .ok (w :: arguments) := by
    rw [Block.lookup, hw]
    exact Except.map_eq_ok_iff.mpr ⟨arguments, (Block.lookup_eq_ok_iff harity).mpr
      ((Block.lookup_eq_ok_iff harity).mp harguments), rfl⟩
  rw [hdomains, hnumbers] at hindices
  rw [Except.ok.inj hindices]
  exact hatom

/-- Recording a value keeps the tables of the functions and the auxiliary atoms in step. -/
theorem mirrors_record (h : e.IsStoreOf l) (hl : l.IsRegular) (hm : e.Mirrors l)
    (f : FunctionValue) : (e.record f).1.Mirrors l := by
  rcases h.record_cases hl f with ⟨cause, hrecord⟩ |
    ⟨t, larger, id, hfunction, hinsert, hid, htable, hrecord⟩
  · rw [hrecord]
    exact hm
  obtain ⟨ht, hsignature⟩ := mem_of_function? hfunction
  obtain ⟨hwritten, -⟩ := h.putFunction_insert hl.toIsDeclared hfunction hinsert
  obtain ⟨w, arguments, hlookup, hdecl, -, -, hconflict, hvalue⟩ :=
    FunctionTable.insert_eq_ok hinsert
  have hatom := h.atomOf?_of_lookup hl hfunction hlookup hid
  have hsame : ∀ g ∈ l.schema.functions,
      g.auxiliary.signature = f.auxiliary ↔ g.signature = f.signature := by
    intro g hg
    rw [← hsignature, ← FunctionTable.auxiliary_eq hsignature]
    exact hl.auxiliary_eq_iff hg (h.decl_mem ht)
  rw [hrecord]
  intro g hg v others
  have hknown : ((e.putFunction larger).put f.auxiliary id .true).valueAt? g.signature others =
      if g.signature = f.signature ∧ others = arguments then some w
      else e.valueAt? g.signature others :=
    valueAt?_putFunction hfunction hdecl hvalue others
  have htrue : (e.putFunction larger).IsTrueAt g.auxiliary.signature (v :: others) ↔
      e.IsTrueAt g.auxiliary.signature (v :: others) := Iff.rfl
  rw [hknown, isTrueAt_put_true (hwritten.layout_eq ▸ hl.toIsLaidOut) htable
    (hwritten.layout_eq ▸ hatom), htrue, hsame g hg, List.cons.injEq, ← hm g hg]
  split_ifs with hwrite
  · obtain ⟨hg', rfl⟩ := hwrite
    rw [Option.some.injEq]
    constructor
    · intro hv
      exact .inl ⟨hg', hv.symm, rfl⟩
    · -- a value that was known before is the same
      rintro (⟨-, hv, -⟩ | hv)
      · exact hv.symm
      · rw [hg', valueAt?, hfunction, Option.bind_some] at hv
        exact (hconflict v hv).symm
  · exact (or_iff_right fun hboth => hwrite ⟨hboth.1, hboth.2.2⟩).symm

/-- Calls that leave the auxiliary predicates to the functions keep the two in step. -/
theorem mirrors_perform (h : e.IsStoreOf l) (hl : l.IsRegular) (hm : e.Mirrors l) {c : Call}
    (hc : c.Spares l.schema) : (e.perform c).1.Mirrors l := by
  cases c with
  | set s id v =>
    show (e.settle (e.set s id v)).1.Mirrors l
    rcases e.set_cases s id v with ⟨cause, hset⟩ | ⟨htable, hset⟩
    · rw [hset]
      exact hm
    · rw [hset]
      exact hm.put htable hc
  | assert s constants v =>
    show (e.settle ((e.assert s constants v).map Prod.snd)).1.Mirrors l
    rcases e.assert_cases s constants v with ⟨cause, hassert⟩ | ⟨id, -, htable, hassert⟩
    · rw [hassert]
      exact hm
    · rw [hassert]
      exact hm.put htable hc
  | record f => exact h.mirrors_record hl hm f

theorem mirrors_after (h : e.IsStoreOf l) (hl : l.IsRegular) (hm : e.Mirrors l) {calls : List Call}
    (hcalls : ∀ c ∈ calls, c.Spares l.schema) : (e.after calls).Mirrors l := by
  induction calls generalizing e with
  | nil => exact hm
  | cons c calls ih =>
    rw [List.forall_mem_cons] at hcalls
    exact ih (h.perform hl.toIsDeclared c) (h.mirrors_perform hl hm hcalls.1) hcalls.2

end IsStoreOf

/-- Without assertions, no value is known and no atom is true. -/
theorem mirrors_unasserted {a : Assumptions} (h : unasserted l a = .ok e) : e.Mirrors l := by
  intro f _ v arguments
  constructor
  · intro hv
    obtain ⟨t, ht, hv⟩ := Option.bind_eq_some_iff.mp hv
    have hmem := (mem_of_function? ht).1
    obtain ⟨⟨⟩, -, h⟩ := Except.bind_eq_ok_iff.mp h
    cases h
    obtain ⟨decl, -, rfl⟩ := List.mem_map.mp hmem
    have hnone : (FunctionTable.empty l.domains decl).value? arguments = none :=
      Std.HashMap.getElem?_empty
    rw [hnone] at hv
    cases hv
  · rintro ⟨id, -, htrue⟩
    obtain ⟨t, ht, -, htrue⟩ := get_eq_ok_iff.mp htrue
    rw [get_of_mem_unasserted h (mem_of_table? ht).1, Assumptions.default] at htrue
    split_ifs at htrue

/-- Whether every function has a table, the values of which are the true atoms of its auxiliary
predicate, one for each tuple of arguments at most, and has the values recorded in a history. -/
structure IsFunctional (e : Evidence) (l : Layout) (history : List Call) : Prop where
  exists_table : ∀ f ∈ l.schema.functions, ∃ t, e.function? f.signature = some t ∧ t.decl = f
  mirrors : e.Mirrors l
  isTrueAt_unique : ∀ f ∈ l.schema.functions, ∀ v w arguments,
    e.IsTrueAt f.auxiliary.signature (v :: arguments) →
      e.IsTrueAt f.auxiliary.signature (w :: arguments) → v = w
  keeps : ∀ f, .record f ∈ history → e.Keeps f

theorem IsStoreOf.exists_function (h : e.IsStoreOf l) (hl : l.IsDeclared) {f : FunctionDecl}
    (hf : f ∈ l.schema.functions) : ∃ t, e.function? f.signature = some t ∧ t.decl = f := by
  rw [← h.decls_eq] at hf
  obtain ⟨t, ht, rfl⟩ := List.mem_map.mp hf
  have hnodup := hl.nodup_functions
  rw [← h.decls_eq, List.map_map] at hnodup
  exact ⟨t, find?_key_eq_some hnodup ht, rfl⟩

theorem spares_of_mem_ofTheory {schema : Schema} {facts : List Fact} {values : List FunctionValue}
    (hfacts : ∀ f ∈ facts, f.signature ∉ schema.auxiliaries) {c : Call}
    (hc : c ∈ Call.ofTheory facts values) : c.Spares schema := by
  rcases List.mem_append.mp hc with hc | hc
  · obtain ⟨f, hf, rfl⟩ := List.mem_map.mp hc
    exact hfacts f hf
  · obtain ⟨f, -, rfl⟩ := List.mem_map.mp hc
    exact trivial

/-- In a store that was built, and after any calls, the values of functions are the true atoms of
their auxiliary predicates, if these atoms are left to the functions.  Values that were recorded
with success are known, and no call that follows changes one that is known.  Ends of blocks are
words, and none of them wraps around unless there are `2 ^ 31` declarations. -/
theorem isFunctional_of_build {schema : Schema} {domains : Domains} {a : Assumptions}
    {facts : List Fact} {values : List FunctionValue} (hl : Layout.build schema domains = .ok l)
    (hends : ∀ b ∈ l.blocks, b.first < b.stop) (he : build l a facts values = .ok e)
    (hfacts : ∀ f ∈ facts, f.signature ∉ l.schema.auxiliaries) {calls : List Call}
    (hcalls : ∀ c ∈ calls, c.Spares l.schema) :
    (e.after calls).IsFunctional l (Call.ofTheory facts values ++ e.successes calls) ∧
      ∀ later s arguments v, (e.after calls).valueAt? s arguments = some v →
        ((e.after calls).after later).valueAt? s arguments = some v := by
  have hregular := Layout.isRegular_of_build hl hends
  have hstore := isStoreOf_after_build hregular.toIsDeclared he calls
  obtain ⟨start, hstart, hbuilt, hsuccesses⟩ := build_eq_ok he
  -- the calls that built the store and those that followed are one history
  have hafter : start.after (Call.ofTheory facts values ++ calls) = e.after calls := by
    rw [after_append, hbuilt]
  have hmirrors : (e.after calls).Mirrors l := by
    rw [← hafter]
    refine (isStoreOf_unasserted hstart).mirrors_after hregular (mirrors_unasserted hstart) ?_
    intro c hc
    rcases List.mem_append.mp hc with hc | hc
    · exact spares_of_mem_ofTheory hfacts hc
    · exact hcalls c hc
  refine ⟨⟨fun f hf => hstore.exists_function hregular.toIsDeclared hf, hmirrors, ?_, ?_⟩,
    fun later s arguments v hv => (extends_after _ later).valueAt?_eq hv⟩
  · intro f hf v w arguments hv hw
    rw [← hmirrors f hf] at hv hw
    rw [hv] at hw
    exact Option.some.inj hw
  · intro f hf
    rw [← hafter]
    refine keeps_after ?_
    rw [successes_append, hbuilt, hsuccesses]
    exact hf

end Evidence

/-! #### A calendar -/

namespace Layout.Calendar

theorem first_lt_stop : ∀ b ∈ layout.blocks, b.first < b.stop := by
  simp [layout, rain, holiday, plan, next, Block.stop]

theorem isFunctional_of_build_calendar : build schema domains = .ok layout ∧
    (∀ b ∈ layout.blocks, b.first < b.stop) ∧
    Evidence.build layout assumptions facts values = .ok evidence ∧
    (∀ f ∈ facts, f.signature ∉ layout.schema.auxiliaries) ∧
    (∀ c ∈ calls, c.Spares layout.schema) ∧
    (evidence.after calls).IsFunctional layout
      (Evidence.Call.ofTheory facts values ++ evidence.successes calls) ∧
    ∀ later s arguments v, (evidence.after calls).valueAt? s arguments = some v →
      ((evidence.after calls).after later).valueAt? s arguments = some v := by
  have hfacts : ∀ f ∈ facts, f.signature ∉ layout.schema.auxiliaries := by
    simp [facts, layout, schema, Schema.auxiliaries, FunctionDecl.auxiliary, Fact.signature,
      PredicateDecl.signature]
  have hcalls : ∀ c ∈ calls, c.Spares layout.schema := by
    simp [calls, layout, schema, Schema.auxiliaries, FunctionDecl.auxiliary, Evidence.Call.Spares,
      PredicateDecl.signature]
  exact ⟨build_eq, first_lt_stop, build_evidence, hfacts, hcalls,
    Evidence.isFunctional_of_build build_eq first_lt_stop build_evidence hfacts hcalls⟩

end Layout.Calendar

end LogicNetwork
