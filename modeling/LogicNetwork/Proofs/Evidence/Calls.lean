import LogicNetwork.Proofs.Evidence.Writes

/-!
# Calls to a store

A store changes by calls, each of which succeeds or fails (`Evidence.perform`).  Setting an atom and
asserting an atom check everything before they write.  Recording the value of a function writes
twice, the table of the function first.  The second step, which asserts the auxiliary atom, cannot
fail after the first: the constants have been found in the domains of the function, and these are
the domains of the block of the auxiliary predicate (`Evidence.IsStoreOf.exists_encode_of_insert`).
So a call that fails leaves the store as it was (`Evidence.IsStoreOf.perform_cases`).

Building a store is making calls that all succeed (`Evidence.build_eq_ok`), and whatever calls
follow, the store stays one of its layout (`Evidence.isStoreOf_after_build`).
-/

namespace LogicNetwork.Evidence

variable {e e' : Evidence} {l : Layout} {s : Signature} {id : AtomId} {v : TruthValue}
  {constants : List String}

/-! ### Calls -/

/-- A call that changes a store. -/
inductive Call
  | set (s : Signature) (id : AtomId) (v : TruthValue)
  | assert (s : Signature) (constants : List String) (v : TruthValue)
  /-- Records the value of a function. -/
  | record (f : FunctionValue)

/-- The store after an operation that gives a new one or fails, and how the operation ended. -/
def settle (e : Evidence) : Except EvidenceError Evidence → Evidence × Except EvidenceError Unit
  | .ok e' => (e', .ok ())
  | .error cause => (e, .error cause)

/-- The store after a call, and how the call ended. -/
def perform (e : Evidence) : Call → Evidence × Except EvidenceError Unit
  | .set s id v => e.settle (e.set s id v)
  | .assert s constants v => e.settle ((e.assert s constants v).map Prod.snd)
  | .record f => e.record f

/-- The store after calls. -/
def after (e : Evidence) (calls : List Call) : Evidence :=
  calls.foldl (fun e c => (e.perform c).1) e

/-- Those of the calls that succeed. -/
def successes (e : Evidence) : List Call → List Call
  | [] => []
  | c :: rest =>
    if (e.perform c).2.isOk then c :: (e.perform c).1.successes rest
    else (e.perform c).1.successes rest

namespace Call

/-- The atom that a call asserts, if there is one of its constants. -/
def atom? (l : Layout) : Call → Option (Signature × AtomId)
  | set s id _ => some (s, id)
  | assert s constants _ => (l.encode s constants).toOption.map fun id => (s, id)
  | record f =>
    (l.encode f.auxiliary (f.value :: f.arguments)).toOption.map fun id => (f.auxiliary, id)

/-- The truth value that a call asserts. -/
def state : Call → TruthValue
  | set _ _ v => v
  | assert _ _ v => v
  | record _ => .true

/-- The function of which a call records a value. -/
def function? : Call → Option Signature
  | record f => some f.signature
  | _ => none

end Call

/-! ### What a call does -/

theorem set_cases (e : Evidence) (s : Signature) (id : AtomId) (v : TruthValue) :
    (∃ cause, e.set s id v = .error cause) ∨
      (∃ t, e.tableOf s id = .ok t) ∧ e.set s id v = .ok (e.put s id v) := by
  cases hset : e.set s id v with
  | error cause => exact .inl ⟨cause, rfl⟩
  | ok next =>
    obtain ⟨htable, rfl⟩ := set_eq_ok_iff.mp hset
    exact .inr ⟨htable, rfl⟩

theorem assert_cases (e : Evidence) (s : Signature) (constants : List String) (v : TruthValue) :
    (∃ cause, e.assert s constants v = .error cause) ∨
      ∃ id, e.layout.encode s constants = .ok id ∧ (∃ t, e.tableOf s id = .ok t) ∧
        e.assert s constants v = .ok (id, e.put s id v) := by
  cases hassert : e.assert s constants v with
  | error cause => exact .inl ⟨cause, rfl⟩
  | ok result =>
    obtain ⟨id, next⟩ := result
    obtain ⟨hid, hset⟩ := assert_eq_ok_iff.mp hassert
    obtain ⟨htable, rfl⟩ := set_eq_ok_iff.mp hset
    exact .inr ⟨id, hid, htable, rfl⟩

/-- Recording fails before it writes, or writes the table of the function and asserts. -/
theorem record_cases (e : Evidence) (f : FunctionValue) :
    (∃ cause, e.record f = (e, .error cause)) ∨
      ∃ t larger, e.function? f.signature = some t ∧ t.insert f.value f.arguments = .ok larger ∧
        e.record f =
          (e.putFunction larger).settle (((e.putFunction larger).assert f.auxiliary
            (f.value :: f.arguments) .true).map Prod.snd) := by
  unfold record
  cases hfunction : e.function? f.signature with
  | none => exact .inl ⟨_, rfl⟩
  | some t =>
    have hsignature := (mem_of_function? hfunction).2
    dsimp only
    cases hinsert : t.insert f.value f.arguments with
    | error cause => exact .inl ⟨cause, rfl⟩
    | ok larger =>
      refine .inr ⟨t, larger, rfl, hinsert, ?_⟩
      dsimp only
      rw [FunctionTable.auxiliary_eq hsignature]
      rcases (e.putFunction larger).assert_cases f.auxiliary (f.value :: f.arguments) .true with
        ⟨cause, hassert⟩ | ⟨id, -, -, hassert⟩
      · rw [hassert]
        rfl
      · rw [hassert]
        rfl

namespace IsStoreOf

variable {c : Call} {f : FunctionValue}

theorem settle_set (h : e.IsStoreOf l) (hl : l.IsDeclared) :
    (e.settle (e.set s id v)).1.IsStoreOf l := by
  rcases e.set_cases s id v with ⟨cause, hset⟩ | ⟨htable, hset⟩
  · rw [hset]
    exact h
  · rw [hset]
    exact h.put hl htable

theorem settle_assert (h : e.IsStoreOf l) (hl : l.IsDeclared) :
    (e.settle ((e.assert s constants v).map Prod.snd)).1.IsStoreOf l := by
  rcases e.assert_cases s constants v with ⟨cause, hassert⟩ | ⟨id, -, htable, hassert⟩
  · rw [hassert]
    exact h
  · rw [hassert]
    exact h.put hl htable

/-- The store with a larger table of a function. -/
theorem putFunction_insert (h : e.IsStoreOf l) (hl : l.IsDeclared) {t larger : FunctionTable}
    (hfunction : e.function? f.signature = some t)
    (hinsert : t.insert f.value f.arguments = .ok larger) :
    (e.putFunction larger).IsStoreOf l ∧ larger.signature = f.signature := by
  obtain ⟨ht, hsignature⟩ := mem_of_function? hfunction
  obtain ⟨-, -, -, hdecl, -⟩ := FunctionTable.insert_eq_ok hinsert
  have harity : f.arguments.length = t.decl.domains.length :=
    (congrArg Signature.arity hsignature).symm
  refine ⟨h.putFunction hl ht hdecl ((h.isOver t ht).insert harity hinsert), ?_⟩
  rw [← hsignature, FunctionTable.signature, hdecl]
  rfl

/-- Whether a call succeeds or fails, the store stays one of the layout. -/
theorem perform (h : e.IsStoreOf l) (hl : l.IsDeclared) (c : Call) :
    (e.perform c).1.IsStoreOf l := by
  cases c with
  | set s id v => exact h.settle_set hl
  | assert s constants v => exact h.settle_assert hl
  | record f =>
    show (e.record f).1.IsStoreOf l
    rcases e.record_cases f with ⟨cause, hrecord⟩ | ⟨t, larger, hfunction, hinsert, hrecord⟩
    · rw [hrecord]
      exact h
    · rw [hrecord]
      exact (h.putFunction_insert hl hfunction hinsert).1.settle_assert hl

theorem after (h : e.IsStoreOf l) (hl : l.IsDeclared) (calls : List Call) :
    (e.after calls).IsStoreOf l := by
  induction calls generalizing e with
  | nil => exact h
  | cons c calls ih => exact ih (h.perform hl c)

/-- The block of the auxiliary predicate of a function has the domains of the function. -/
theorem exists_auxiliary_block (h : e.IsStoreOf l) (hl : l.IsDeclared) {t : FunctionTable}
    (ht : t ∈ e.functions) :
    ∃ b ∈ l.blocks, b.signature = t.auxiliary ∧ b.domains = t.result :: t.domains := by
  have htable : t.decl.auxiliary ∈ l.schema.tables :=
    List.mem_append_right _ (List.mem_map_of_mem (h.decl_mem ht))
  obtain ⟨b, hb, hsignature, hdomains⟩ := hl.exists_block htable
  refine ⟨b, hb, hsignature, ?_⟩
  rw [hdomains, (h.isOver t ht).result_eq, (h.isOver t ht).domains_eq]
  rfl

/-- A table of a function has as many domains as its signature has arguments. -/
theorem length_domains (h : e.IsStoreOf l) {t : FunctionTable} (ht : t ∈ e.functions) :
    t.domains.length = t.signature.arity := by
  rw [(h.isOver t ht).domains_eq, List.length_map]
  rfl

/-- Once a value has been put into the table of its function, its auxiliary atom has an id. -/
theorem exists_encode_of_insert (h : e.IsStoreOf l) (hl : l.IsRegular) {t larger : FunctionTable}
    (hfunction : e.function? f.signature = some t)
    (hinsert : t.insert f.value f.arguments = .ok larger) :
    ∃ b ∈ l.blocks, b.signature = f.auxiliary ∧ ∃ id, b.contains id.number = true ∧
      l.encode f.auxiliary (f.value :: f.arguments) = .ok id := by
  obtain ⟨ht, hsignature⟩ := mem_of_function? hfunction
  obtain ⟨b, hb, hauxiliary, hsame⟩ := h.exists_auxiliary_block hl.toIsDeclared ht
  have hb' : b.signature = f.auxiliary := hauxiliary.trans (FunctionTable.auxiliary_eq hsignature)
  obtain ⟨v, indices, hlookup, -⟩ := FunctionTable.insert_eq_ok hinsert
  obtain ⟨hv, hindices⟩ := FunctionTable.lookup_eq_ok_iff.mp hlookup
  -- the numbers of value and arguments are a tuple of the block, and its constants are theirs
  have harity : f.arguments.length = t.domains.length := by
    rw [h.length_domains ht, hsignature]
    rfl
  obtain ⟨hnumeral, hzip⟩ := (Block.lookup_eq_ok_iff harity).mp hindices
  have hsymbol := Domain.indexOf?_eq_some_iff.mp hv
  have hradices : MixedRadix.IsNumeral b.radices (v :: indices) := by
    rw [Block.radices, hsame]
    exact ⟨Domain.symbol?_lt hsymbol, hnumeral⟩
  have hstop := hl.stop_le_of_domains b hb (by rw [hsame]; exact List.cons_ne_nil _ _)
  obtain ⟨id, hcontains, hid⟩ := hl.exists_encode hb hstop hradices
  rw [hsame, List.zipWith_cons_cons, hzip, Domain.symbol, hsymbol, Option.getD_some, hb'] at hid
  exact ⟨b, hb, hb', id, hcontains, hid⟩

/-- Recording the value of a function fails and leaves the store as it was, or it writes the table
of the function and then the auxiliary atom. -/
theorem record_cases (h : e.IsStoreOf l) (hl : l.IsRegular) (f : FunctionValue) :
    (∃ cause, e.record f = (e, .error cause)) ∨
      ∃ t larger id, e.function? f.signature = some t ∧
        t.insert f.value f.arguments = .ok larger ∧
        l.encode f.auxiliary (f.value :: f.arguments) = .ok id ∧
        (∃ table, (e.putFunction larger).tableOf f.auxiliary id = .ok table) ∧
        e.record f = ((e.putFunction larger).put f.auxiliary id .true, .ok ()) := by
  rcases Evidence.record_cases e f with hfailed | ⟨t, larger, hfunction, hinsert, hrecord⟩
  · exact .inl hfailed
  · obtain ⟨hwritten, -⟩ := h.putFunction_insert hl.toIsDeclared hfunction hinsert
    obtain ⟨b, hb, hsignature, id, hcontains, hid⟩ :=
      h.exists_encode_of_insert hl hfunction hinsert
    have htable :=
      (hwritten.exists_tableOf_iff hl.toIsDeclared).mpr ⟨b, hb, hsignature, hcontains⟩
    have hassert : (e.putFunction larger).assert f.auxiliary (f.value :: f.arguments) .true =
        .ok (id, (e.putFunction larger).put f.auxiliary id .true) :=
      assert_eq_ok_iff.mpr ⟨hwritten.layout_eq ▸ hid, set_eq_ok_iff.mpr ⟨htable, rfl⟩⟩
    refine .inr ⟨t, larger, id, hfunction, hinsert, hid, htable, ?_⟩
    rw [hrecord, hassert]
    rfl

/-- A call fails and leaves the store as it was, or it succeeds and asserts its atom, after at most
the table of its function has changed. -/
theorem perform_cases (h : e.IsStoreOf l) (hl : l.IsRegular) (c : Call) :
    (∃ cause, e.perform c = (e, .error cause)) ∨
      ∃ written : Evidence, written.tables = e.tables ∧
        (∀ other, c.function? ≠ some other → written.function? other = e.function? other) ∧
        ∃ s id, c.atom? l = some (s, id) ∧ (∃ t, written.tableOf s id = .ok t) ∧
          e.perform c = (written.put s id c.state, .ok ()) := by
  cases c with
  | set s id v =>
    show (∃ cause, e.settle (e.set s id v) = _) ∨ _
    rcases e.set_cases s id v with ⟨cause, hset⟩ | ⟨htable, hset⟩
    · exact .inl ⟨cause, by rw [hset]; rfl⟩
    · refine .inr ⟨e, rfl, fun _ _ => rfl, s, id, rfl, htable, ?_⟩
      show e.settle (e.set s id v) = _
      rw [hset]
      rfl
  | assert s constants v =>
    show (∃ cause, e.settle ((e.assert s constants v).map Prod.snd) = _) ∨ _
    rcases e.assert_cases s constants v with ⟨cause, hassert⟩ | ⟨id, hid, htable, hassert⟩
    · exact .inl ⟨cause, by rw [hassert]; rfl⟩
    · rw [h.layout_eq] at hid
      refine .inr ⟨e, rfl, fun _ _ => rfl, s, id, by simp [Call.atom?, hid, Except.toOption],
        htable, ?_⟩
      show e.settle ((e.assert s constants v).map Prod.snd) = _
      rw [hassert]
      rfl
  | record f =>
    show (∃ cause, e.record f = _) ∨ _
    rcases h.record_cases hl f with
      hfailed | ⟨t, larger, id, hfunction, hinsert, hid, htable, hdone⟩
    · exact .inl hfailed
    · obtain ⟨-, hlarger⟩ := h.putFunction_insert hl.toIsDeclared hfunction hinsert
      refine .inr ⟨e.putFunction larger, rfl, fun other hother => ?_, f.auxiliary, id,
        by simp [Call.atom?, hid, Except.toOption], htable, hdone⟩
      refine function?_putFunction_of_ne fun heq => hother ?_
      rw [← heq, hlarger]
      rfl

end IsStoreOf

/-! ### Stores that were built -/

theorem isStoreOf_unasserted {assumptions : Assumptions}
    (h : unasserted l assumptions = .ok e) : e.IsStoreOf l := by
  obtain ⟨⟨⟩, -, h⟩ := Except.bind_eq_ok_iff.mp h
  cases h
  refine ⟨rfl, ?_, ?_, ?_, ?_⟩
  · show (l.blocks.map _).map FactTable.block = l.blocks
    rw [List.map_map]
    exact List.map_id' l.blocks
  · intro t ht id hid
    obtain ⟨b, -, rfl⟩ := List.mem_map.mp ht
    exact absurd hid Std.TreeMap.not_mem_emptyc
  · show (l.schema.functions.map _).map FunctionTable.decl = _
    rw [List.map_map]
    exact List.map_id' l.schema.functions
  · intro t ht
    obtain ⟨decl, -, rfl⟩ := List.mem_map.mp ht
    exact FunctionTable.isOver_empty decl

theorem after_append (e : Evidence) (calls others : List Call) :
    e.after (calls ++ others) = (e.after calls).after others :=
  List.foldl_append

theorem successes_append (e : Evidence) (calls others : List Call) :
    e.successes (calls ++ others) = e.successes calls ++ (e.after calls).successes others := by
  induction calls generalizing e with
  | nil => rfl
  | cons c calls ih =>
    rw [List.cons_append, successes, successes, ih]
    split_ifs <;> rfl

/-- A left fold whose steps are calls that succeed. -/
theorem after_of_foldlM {β : Type} {step : Evidence → β → Except Failure Evidence}
    {call : β → Call}
    (hstep : ∀ e x next, step e x = .ok next → e.perform (call x) = (next, .ok ()))
    {xs : List β} (h : xs.foldlM step e = .ok e') :
    e.after (xs.map call) = e' ∧ e.successes (xs.map call) = xs.map call := by
  induction xs generalizing e with
  | nil =>
    cases h
    exact ⟨rfl, rfl⟩
  | cons x xs ih =>
    obtain ⟨next, hnext, h⟩ := Except.bind_eq_ok_iff.mp h
    obtain ⟨hafter, hsuccesses⟩ := ih h
    have hperform := hstep e x next hnext
    rw [List.map_cons, after, List.foldl_cons, successes, hperform]
    refine ⟨hafter, ?_⟩
    show call x :: next.successes (xs.map call) = _
    rw [hsuccesses]

/-- The call that asserts a fact. -/
def Call.ofFact (f : Fact) : Call :=
  .assert f.signature f.arguments f.state

/-- The calls that build a store. -/
def Call.ofTheory (facts : List Fact) (values : List FunctionValue) : List Call :=
  facts.map ofFact ++ values.map record

/-- Building a store is making calls that all succeed. -/
theorem build_eq_ok {assumptions : Assumptions} {facts : List Fact} {values : List FunctionValue}
    (h : build l assumptions facts values = .ok e) :
    ∃ start, unasserted l assumptions = .ok start ∧
      start.after (Call.ofTheory facts values) = e ∧
      start.successes (Call.ofTheory facts values) = Call.ofTheory facts values := by
  obtain ⟨start, hstart, h⟩ := Except.bind_eq_ok_iff.mp h
  obtain ⟨asserted, hfacts, hvalues⟩ := Except.bind_eq_ok_iff.mp h
  have hfact : ∀ (e : Evidence) (f : Fact) (next : Evidence),
      ((e.assert f.signature f.arguments f.state).mapError Failure.evidence >>= fun result =>
        .ok result.2) = .ok next → e.perform (.ofFact f) = (next, .ok ()) := by
    intro e f next hnext
    obtain ⟨⟨id, written⟩, hassert, hwritten⟩ := Except.bind_eq_ok_iff.mp hnext
    cases hwritten
    show e.settle ((e.assert f.signature f.arguments f.state).map Prod.snd) = _
    rw [Except.mapError_eq_ok_iff.mp hassert]
    rfl
  have hvalue : ∀ (e : Evidence) (f : FunctionValue) (next : Evidence),
      (e.assign f).mapError Failure.evidence = .ok next →
        e.perform (.record f) = (next, .ok ()) := by
    intro e f next hnext
    obtain ⟨⟨⟩, hrecord, hwritten⟩ := Except.map_eq_ok_iff.mp (Except.mapError_eq_ok_iff.mp hnext)
    exact Prod.ext hwritten hrecord
  obtain ⟨hafter, hsuccesses⟩ := after_of_foldlM hfact hfacts
  obtain ⟨hafter', hsuccesses'⟩ := after_of_foldlM hvalue hvalues
  refine ⟨start, Except.mapError_eq_ok_iff.mp hstart, ?_, ?_⟩
  · rw [Call.ofTheory, after_append, hafter, hafter']
  · rw [Call.ofTheory, successes_append, hafter, hsuccesses, hsuccesses']

/-- A store that was built stays one of its layout, whatever calls follow. -/
theorem isStoreOf_after_build {assumptions : Assumptions} {facts : List Fact}
    {values : List FunctionValue} (hl : l.IsDeclared)
    (h : build l assumptions facts values = .ok e) (calls : List Call) :
    (e.after calls).IsStoreOf l := by
  obtain ⟨start, hstart, rfl, -⟩ := build_eq_ok h
  exact ((isStoreOf_unasserted hstart).after hl _).after hl calls

end LogicNetwork.Evidence
