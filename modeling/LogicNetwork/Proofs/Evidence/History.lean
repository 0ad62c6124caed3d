import LogicNetwork.Proofs.Evidence.Calls
import Mathlib.Data.List.Induction

/-!
# The last assertion counts

What a store says about an atom is what the last successful call to assert it said, and the default
of its signature if there is none (`Evidence.last_call_wins`).  The history of a store consists of
the calls that built it and those that came after; recording a value of a function counts as
asserting its auxiliary atom.

One call changes one atom and one function at most if it succeeds (`Evidence.get_perform`), and
nothing at all if it fails.  Going through the calls from the last to the first then finds the one
that counts (`Evidence.get_after`).
-/

namespace LogicNetwork

/-- The truth value of the atoms of a signature that nothing asserts. -/
def Assumptions.default (a : Assumptions) (s : Signature) : TruthValue :=
  if s ∈ a.query ∨ s ∈ a.openWorld then .unknown else .false

namespace Evidence

variable {e other : Evidence} {l : Layout} {s : Signature} {id : AtomId} {v : TruthValue}

/-- The truth value that the last of some calls to assert an atom gives it. -/
def lastState? (l : Layout) (calls : List Call) (s : Signature) (id : AtomId) : Option TruthValue :=
  (calls.filter fun c => c.atom? l = some (s, id)).getLast?.map Call.state

theorem lastState?_concat (calls : List Call) (c : Call) :
    lastState? l (calls ++ [c]) s id =
      if c.atom? l = some (s, id) then some c.state else lastState? l calls s id := by
  unfold lastState?
  rw [List.filter_append, List.filter_singleton]
  split_ifs with hc
  · rw [decide_eq_true hc, cond_true, List.getLast?_concat]
    rfl
  · rw [decide_eq_false hc, cond_false, List.append_nil]

/-! ### One call -/

theorem get_congr (h : e.tables = other.tables) : e.get s id = other.get s id := by
  unfold get tableOf table table?
  rw [h]

/-- A call changes what the store says about the atom that it asserts, if it succeeds. -/
theorem get_perform (h : e.IsStoreOf l) (hl : l.IsRegular) (c : Call) :
    (e.perform c).1.get s id =
      if (e.perform c).2.isOk = true ∧ c.atom? l = some (s, id) then .ok c.state
      else e.get s id := by
  rcases h.perform_cases hl c with ⟨cause, hfailed⟩ | ⟨written, htables, -, t, i, hatom, hid, hdone⟩
  · rw [hfailed, if_neg]
    rintro ⟨hok, -⟩
    cases hok
  · rw [hdone, hatom, get_put hid, get_congr htables]
    simp only [Except.isOk, Except.toBool, true_and, Option.some.injEq, Prod.mk.injEq]

/-- What calls assert overrides what the store said before. -/
theorem get_after (h : e.IsStoreOf l) (hl : l.IsRegular) (calls : List Call) :
    (e.after calls).get s id =
      ((lastState? l (e.successes calls) s id).map Except.ok).getD (e.get s id) := by
  induction calls using List.reverseRecOn with
  | nil => rfl
  | append_singleton calls c ih =>
    have hbefore := h.after hl.toIsDeclared calls
    rw [after_append, successes_append]
    show ((e.after calls).perform c).1.get s id = _
    rw [get_perform hbefore hl, ih]
    show _ = ((lastState? l (_ ++ if ((e.after calls).perform c).2.isOk then [c] else []) s
      id).map Except.ok).getD _
    -- the last call counts if it succeeds and asserts the atom
    by_cases hok : ((e.after calls).perform c).2.isOk = true
    · rw [if_pos hok, lastState?_concat]
      by_cases hatom : c.atom? l = some (s, id)
      · rw [if_pos ⟨hok, hatom⟩, if_pos hatom]
        rfl
      · rw [if_neg fun hboth => hatom hboth.2, if_neg hatom]
    · rw [if_neg fun hboth => hok hboth.1, if_neg hok, List.append_nil]

/-! ### Whole histories -/

theorem get_of_mem_unasserted {a : Assumptions} (h : unasserted l a = .ok e) {t : FactTable}
    (ht : t ∈ e.tables) : t.get id = a.default t.block.signature := by
  obtain ⟨⟨⟩, -, h⟩ := Except.bind_eq_ok_iff.mp h
  cases h
  obtain ⟨b, -, rfl⟩ := List.mem_map.mp ht
  show (∅ : Std.TreeMap AtomId TruthValue).getD id _ = a.default b.signature
  rw [Std.TreeMap.getD_emptyc]
  have hclosed : (FactTable.empty b
      !(a.query.contains b.signature || a.openWorld.contains b.signature)).closed =
        !decide (b.signature ∈ a.query ∨ b.signature ∈ a.openWorld) := by
    simp [FactTable.empty]
  unfold FactTable.default Assumptions.default
  rw [hclosed]
  by_cases hopen : b.signature ∈ a.query ∨ b.signature ∈ a.openWorld <;> simp only [hopen] <;> rfl

/-- Without assertions, the atoms of a signature have its default. -/
theorem get_unasserted {a : Assumptions} (h : unasserted l a = .ok e)
    (hid : ∃ t, e.tableOf s id = .ok t) : e.get s id = .ok (a.default s) := by
  obtain ⟨t, ht⟩ := hid
  obtain ⟨htable, hcontains⟩ := tableOf_eq_ok_iff.mp ht
  obtain ⟨hmem, rfl⟩ := mem_of_table? htable
  exact get_eq_ok_iff.mpr ⟨t, htable, hcontains, get_of_mem_unasserted h hmem⟩

/-- Whether a store says about every atom what the last call of a history to assert it said, or the
default of its signature. -/
def Reflects (e : Evidence) (l : Layout) (a : Assumptions) (history : List Call) : Prop :=
  ∀ s id v, e.get s id = .ok v ↔
    (∃ b ∈ l.blocks, b.signature = s ∧ b.contains id.number = true) ∧
      (lastState? l history s id).getD (a.default s) = v

/-- Whether a call changes nothing if it fails, and else no atom and no function but its own. -/
structure IsAtomic (e : Evidence) (l : Layout) (c : Call) : Prop where
  eq_of_error : ∀ cause, (e.perform c).2 = .error cause → (e.perform c).1 = e
  get_eq : (e.perform c).2 = .ok () → ∀ s id, c.atom? l ≠ some (s, id) →
    (e.perform c).1.get s id = e.get s id
  function?_eq : (e.perform c).2 = .ok () → ∀ s, c.function? ≠ some s →
    (e.perform c).1.function? s = e.function? s

theorem reflects_after {a : Assumptions} {start : Evidence} (hstart : unasserted l a = .ok start)
    (hl : l.IsRegular) (calls : List Call) :
    (start.after calls).Reflects l a (start.successes calls) := by
  intro s id v
  have hbegin := isStoreOf_unasserted hstart
  have hnow := hbegin.after hl.toIsDeclared calls
  rw [← hnow.exists_tableOf_iff hl.toIsDeclared]
  -- the atoms of the store are the same from the beginning
  have hvalue : (∃ t, (start.after calls).tableOf s id = .ok t) → (start.after calls).get s id =
      .ok ((lastState? l (start.successes calls) s id).getD (a.default s)) := by
    intro hid
    rw [hnow.exists_tableOf_iff hl.toIsDeclared,
      ← hbegin.exists_tableOf_iff hl.toIsDeclared] at hid
    rw [get_after hbegin hl, get_unasserted hstart hid]
    cases lastState? l (start.successes calls) s id <;> rfl
  constructor
  · intro hv
    obtain ⟨t, ht, -⟩ := Except.map_eq_ok_iff.mp hv
    refine ⟨⟨t, ht⟩, ?_⟩
    rw [hvalue ⟨t, ht⟩] at hv
    exact Except.ok.inj hv
  · rintro ⟨hid, rfl⟩
    exact hvalue hid

theorem IsStoreOf.isAtomic (h : e.IsStoreOf l) (hl : l.IsRegular) (c : Call) : e.IsAtomic l c := by
  refine ⟨fun cause hfailed => ?_, fun _ s id hatom => ?_, fun _ s hfunction => ?_⟩
  · rcases h.perform_cases hl c with ⟨_, hsame⟩ | ⟨_, -, -, _, _, -, -, hok⟩
    · rw [hsame]
    · rw [hok] at hfailed
      cases hfailed
  · rw [get_perform h hl, if_neg fun hboth => hatom hboth.2]
  · rcases h.perform_cases hl c with ⟨_, hsame⟩ | ⟨_, -, hothers, _, _, -, -, hok⟩
    · rw [hsame]
    · rw [hok]
      exact hothers s hfunction

/-- What a store says about an atom is what the last successful call to assert it said, or the
default of its signature.  A call that fails changes nothing, and one that succeeds changes no atom
and no function but its own. -/
theorem last_call_wins {schema : Schema} {domains : Domains} {a : Assumptions} {facts : List Fact}
    {values : List FunctionValue} (hl : Layout.build schema domains = .ok l)
    (hstop : ∀ b ∈ l.blocks, b.stop.toNat ≤ 2147483648)
    (he : build l a facts values = .ok e) (calls : List Call) :
    (e.after calls).Reflects l a (Call.ofTheory facts values ++ e.successes calls) ∧
      ∀ c, (e.after calls).IsAtomic l c := by
  have hregular := (Layout.isComplete_of_build hl hstop).isRegular
  refine ⟨?_, (isStoreOf_after_build hregular.toIsDeclared he calls).isAtomic hregular⟩
  obtain ⟨start, hstart, hafter, hsuccesses⟩ := build_eq_ok he
  have hreflects := reflects_after hstart hregular (Call.ofTheory facts values ++ calls)
  rw [after_append, successes_append, hafter, hsuccesses] at hreflects
  exact hreflects

end Evidence

/-! #### A calendar -/

namespace Layout.Calendar

theorem symbol?_day (i : Nat) : day.symbol? i = ["Monday", "Tuesday"][i]? := by
  simp [day, Domain.symbol?, Domain.ofList, distinct, distinctFrom]

theorem indexOf?_monday : day.indexOf? "Monday" = some 0 :=
  Domain.indexOf?_eq_some_iff.mpr (symbol?_day 0)

theorem indexOf?_tuesday : day.indexOf? "Tuesday" = some 1 :=
  Domain.indexOf?_eq_some_iff.mpr (symbol?_day 1)

theorem getOrEmpty_day : domains.getOrEmpty "day" = day :=
  rfl

/-- Rain is asked for. -/
def assumptions : Assumptions :=
  ⟨[⟨"Rain", 1⟩], [], []⟩

/-- It rains on Monday. -/
def facts : List Fact :=
  [⟨"Rain", ["Monday"], .true⟩]

/-- Tuesday follows Monday. -/
def values : List FunctionValue :=
  [⟨"next", "Tuesday", ["Monday"]⟩]

/-- The id of a number. -/
def atom (number : Nat) : AtomId :=
  (AtomId.ofNat? number).getD default

/-- Rain on Monday and the day after Monday. -/
def evidence : Evidence where
  layout := layout
  tables := [(FactTable.empty rain false).set (atom 1) .true, .empty holiday true,
    .empty plan true, (FactTable.empty next true).set (atom 9) .true]
  functions :=
    [⟨⟨"next", "day", ["day"]⟩, day, [day], (∅ : Std.HashMap (List Nat) Nat).insert [0] 1⟩]

theorem stop_le : ∀ b ∈ layout.blocks, b.stop.toNat ≤ 2147483648 := by
  simp [layout, rain, holiday, plan, next, Block.stop]

open Evidence FunctionTable in
theorem build_evidence : Evidence.build layout assumptions facts values = .ok evidence := by
  simp [Evidence.build, unasserted, assumptions, facts, values, layout, rain, holiday, plan, next,
    Layout.block, block?, Except.map, Except.mapError, Bind.bind, Except.bind, Evidence.assert,
    encode, Fact.signature, Block.encode, Block.lookup, indexOf?_monday, Block.encodeIndices,
    Block.radices, size_day, Block.offset?, AtomId.ofNat?, Evidence.set, tableOf, table, table?,
    FactTable.empty, Block.contains, Block.stop, assign, record, function?,
    FunctionTable.signature, FunctionTable.empty, schema, FunctionDecl.signature,
    FunctionValue.signature, FunctionTable.insert, lookup, getOrEmpty_day, indexOf?_tuesday, value?,
    putFunction, auxiliary, FunctionDecl.auxiliary, PredicateDecl.signature, FactTable.set, pure,
    Except.pure, evidence, atom]

/-- Monday turns dry, then Monday is to follow itself, and then there is a holiday. -/
def calls : List Evidence.Call :=
  [.assert ⟨"Rain", 1⟩ ["Monday"] .false, .record ⟨"next", "Monday", ["Monday"]⟩,
    .assert ⟨"Holiday", 0⟩ [] .true]

theorem last_call_wins_calendar : build schema domains = .ok layout ∧
    (∀ b ∈ layout.blocks, b.stop.toNat ≤ 2147483648) ∧
    Evidence.build layout assumptions facts values = .ok evidence ∧
    (evidence.after calls).Reflects layout assumptions
      (Evidence.Call.ofTheory facts values ++ evidence.successes calls) ∧
    ∀ c, (evidence.after calls).IsAtomic layout c :=
  ⟨build_eq, stop_le, build_evidence,
    Evidence.last_call_wins build_eq stop_le build_evidence calls⟩

end Layout.Calendar

end LogicNetwork
