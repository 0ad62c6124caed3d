import LogicNetwork.Evidence.Store
import LogicNetwork.Proofs.Layout.Declarations

/-!
# Writing to a store

`Evidence.IsStoreOf` says what a store keeps of its layout, whatever is written to it: the blocks
and the functions, assertions about atoms of the right block only, and values of functions within
their domains.  Writing an atom changes what the store says about this atom alone
(`Evidence.get_put`), and putting a table of a function changes what it says about this function
alone (`Evidence.function?_putFunction_of_ne`).
-/

namespace LogicNetwork

/-! ### Function tables -/

namespace FunctionTable

variable {t larger : FunctionTable} {domains : Domains} {value : String} {arguments : List String}

/-- Whether a table has the domains of its declaration, and numbers within them. -/
structure IsOver (t : FunctionTable) (domains : Domains) : Prop where
  result_eq : t.result = domains.getOrEmpty t.decl.result
  domains_eq : t.domains = t.decl.domains.map domains.getOrEmpty
  inRange : ∀ indices v, t.value? indices = some v →
    MixedRadix.IsNumeral (t.domains.map Domain.size) indices ∧ v < t.result.size

theorem isOver_empty (decl : FunctionDecl) : (empty domains decl).IsOver domains := by
  refine ⟨rfl, rfl, ?_⟩
  intro indices v hv
  have hnone : (empty domains decl).value? indices = none := Std.HashMap.getElem?_empty
  rw [hnone] at hv
  cases hv

theorem lookup_eq_ok_iff {v : Nat} {indices : List Nat} :
    t.lookup value arguments = .ok (v, indices) ↔ t.result.indexOf? value = some v ∧
      Block.lookup t.signature 1 t.domains arguments = .ok indices := by
  unfold lookup
  cases t.result.indexOf? value with
  | none => simp
  | some found => simp [Except.map_eq_ok_iff, and_comm]

/-- A value is recorded where there is none, and recording it again changes nothing. -/
theorem insert_cases (h : t.insert value arguments = .ok larger) :
    ∃ v indices, t.lookup value arguments = .ok (v, indices) ∧
      (t.value? indices = some v ∧ larger = t ∨
        t.value? indices = none ∧ larger = { t with values := t.values.insert indices v }) := by
  obtain ⟨⟨v, indices⟩, hlookup, h⟩ := Except.bind_eq_ok_iff.mp h
  rw [Except.mapError_eq_ok_iff] at hlookup
  refine ⟨v, indices, hlookup, ?_⟩
  dsimp only at h
  cases hexisting : t.value? indices with
  | some existing =>
    rw [hexisting] at h
    dsimp only at h
    split_ifs at h with heq
    cases h
    exact .inl ⟨congrArg some heq, rfl⟩
  | none =>
    rw [hexisting] at h
    cases h
    exact .inr ⟨rfl, rfl⟩

theorem value?_insert (t : FunctionTable) (indices others : List Nat) (v : Nat) :
    value? { t with values := t.values.insert indices v } others =
      if others = indices then some v else t.value? others := by
  show (t.values.insert indices v)[others]? = _
  rw [Std.HashMap.getElem?_insert]
  by_cases hothers : others = indices
  · rw [if_pos hothers, if_pos (beq_iff_eq.mpr hothers.symm)]
  · rw [if_neg hothers, if_neg fun heq => hothers (beq_iff_eq.mp heq).symm]
    rfl

/-- Recording a value changes it at its arguments alone, where there was no other. -/
theorem insert_eq_ok (h : t.insert value arguments = .ok larger) :
    ∃ v indices, t.lookup value arguments = .ok (v, indices) ∧ larger.decl = t.decl ∧
      larger.result = t.result ∧ larger.domains = t.domains ∧
      (∀ w, t.value? indices = some w → w = v) ∧
      ∀ others, larger.value? others = if others = indices then some v else t.value? others := by
  obtain ⟨v, indices, hlookup, ⟨hexisting, rfl⟩ | ⟨hnone, rfl⟩⟩ := insert_cases h
  · refine ⟨v, indices, hlookup, rfl, rfl, rfl, fun w hw => ?_, fun others => ?_⟩
    · rw [hexisting] at hw
      exact (Option.some.inj hw).symm
    · split_ifs with hothers
      · rw [hothers, hexisting]
      · rfl
  · refine ⟨v, indices, hlookup, rfl, rfl, rfl, fun w hw => ?_, fun others => ?_⟩
    · rw [hnone] at hw
      cases hw
    · exact t.value?_insert indices others v

theorem IsOver.insert (h : t.IsOver domains) (harity : arguments.length = t.decl.domains.length)
    (hinsert : t.insert value arguments = .ok larger) : larger.IsOver domains := by
  obtain ⟨v, indices, hlookup, hdecl, hresult, hdomains, -, hvalue⟩ := insert_eq_ok hinsert
  obtain ⟨hv, hindices⟩ := lookup_eq_ok_iff.mp hlookup
  have hlength : arguments.length = t.domains.length := by
    rw [h.domains_eq, List.length_map, harity]
  refine ⟨by rw [hresult, hdecl, h.result_eq], by rw [hdomains, hdecl, h.domains_eq], ?_⟩
  intro others w hw
  rw [hvalue] at hw
  rw [hdomains, hresult]
  split_ifs at hw with hothers
  · cases hw
    rw [hothers]
    exact ⟨((Block.lookup_eq_ok_iff hlength).mp hindices).1,
      Domain.symbol?_lt (Domain.indexOf?_eq_some_iff.mp hv)⟩
  · exact h.inRange others w hw

end FunctionTable

/-! ### Writes -/

/-- The signature of the auxiliary predicate of a value. -/
def FunctionValue.auxiliary (f : FunctionValue) : Signature :=
  ⟨"AUX" ++ f.function, f.arguments.length + 1⟩

theorem FunctionTable.auxiliary_eq {t : FunctionTable} {f : FunctionValue}
    (h : t.signature = f.signature) : t.auxiliary = f.auxiliary := by
  obtain ⟨hsymbol, harity⟩ := Signature.mk.inj h
  show Signature.mk ("AUX" ++ t.decl.symbol) (t.decl.domains.length + 1) = _
  rw [hsymbol, harity]
  rfl

namespace Evidence

variable {e e' : Evidence} {l : Layout} {s other : Signature} {id id' : AtomId} {v : TruthValue}
  {constants : List String}

/-- The store with a truth value written. -/
def put (e : Evidence) (s : Signature) (id : AtomId) (v : TruthValue) : Evidence :=
  { e with tables := e.tables.map fun t => if t.block.signature = s then t.set id v else t }

theorem set_eq_ok_iff :
    e.set s id v = .ok e' ↔ (∃ t, e.tableOf s id = .ok t) ∧ e' = e.put s id v := by
  rw [set, Except.bind_eq_ok_iff]
  constructor
  · rintro ⟨t, ht, heq⟩
    cases heq
    exact ⟨⟨t, ht⟩, rfl⟩
  · rintro ⟨⟨t, ht⟩, rfl⟩
    exact ⟨t, ht, rfl⟩

theorem assert_eq_ok_iff :
    e.assert s constants v = .ok (id, e') ↔
      e.layout.encode s constants = .ok id ∧ e.set s id v = .ok e' := by
  rw [assert, Except.bind_eq_ok_iff]
  constructor
  · rintro ⟨found, hfound, h⟩
    obtain ⟨next, hnext, h⟩ := Except.bind_eq_ok_iff.mp h
    cases h
    exact ⟨Except.mapError_eq_ok_iff.mp hfound, hnext⟩
  · rintro ⟨hid, hset⟩
    exact ⟨id, Except.mapError_eq_ok_iff.mpr hid, Except.bind_eq_ok_iff.mpr ⟨e', hset, rfl⟩⟩

theorem table_eq_ok_iff {t : FactTable} : e.table s = .ok t ↔ e.table? s = some t := by
  unfold table
  split <;> simp_all

theorem tableOf_eq_ok_iff {t : FactTable} :
    e.tableOf s id = .ok t ↔ e.table? s = some t ∧ t.block.contains id.number = true := by
  rw [tableOf, Except.bind_eq_ok_iff]
  constructor
  · rintro ⟨found, hfound, h⟩
    split_ifs at h with hcontains
    cases h
    exact ⟨table_eq_ok_iff.mp hfound, hcontains⟩
  · rintro ⟨ht, hcontains⟩
    exact ⟨t, table_eq_ok_iff.mpr ht, if_pos hcontains⟩

theorem get_eq_ok_iff : e.get s id = .ok v ↔
    ∃ t, e.table? s = some t ∧ t.block.contains id.number = true ∧ t.get id = v := by
  rw [get, Except.map_eq_ok_iff]
  simp only [tableOf_eq_ok_iff, and_assoc]

theorem table?_put :
    (e.put s id v).table? other =
      (e.table? other).map fun t => if t.block.signature = s then t.set id v else t := by
  unfold table? put
  rw [List.find?_map]
  congr 2
  funext t
  show ((if t.block.signature = s then t.set id v else t).block.signature == other) = _
  split_ifs <;> rfl

theorem mem_of_table? {t : FactTable} (h : e.table? s = some t) :
    t ∈ e.tables ∧ t.block.signature = s :=
  ⟨List.mem_of_find?_eq_some h, by simpa using List.find?_some h⟩

theorem mem_of_function? {t : FunctionTable} (h : e.function? s = some t) :
    t ∈ e.functions ∧ t.signature = s :=
  ⟨List.mem_of_find?_eq_some h, by simpa using List.find?_some h⟩

theorem get_eq_of_table? {t : FactTable} (h : e.table? s = some t) :
    e.get s id = if t.block.contains id.number then .ok (t.get id) else
      .error (.layout (.outsideBlock s id.number t.block.first.toNat t.block.stop.toNat)) := by
  rw [get, tableOf, table_eq_ok_iff.mpr h]
  show (if _ then _ else _ : Except EvidenceError FactTable).map _ = _
  split_ifs <;> rfl

/-- Writing an atom changes this atom alone. -/
theorem get_put (h : ∃ t, e.tableOf s id = .ok t) :
    (e.put s id v).get other id' =
      if s = other ∧ id = id' then .ok v else e.get other id' := by
  obtain ⟨t, ht⟩ := h
  obtain ⟨htable, hcontains⟩ := tableOf_eq_ok_iff.mp ht
  have hsignature := (mem_of_table? htable).2
  by_cases hs : s = other
  · subst hs
    -- the same table, with the atom written
    have hput : (e.put s id v).table? s = some (t.set id v) := by
      rw [table?_put, htable, Option.map_some, if_pos hsignature]
    rw [get_eq_of_table? hput, get_eq_of_table? htable, FactTable.get_set]
    by_cases hid : id = id'
    · subst hid
      simp only [if_true, and_self]
      exact if_pos hcontains
    · simp only [hid, if_false, and_false]
      rfl
  · -- another table, which is left alone
    rw [if_neg fun hboth => hs hboth.1]
    have hsame : (e.put s id v).table? other = e.table? other := by
      rw [table?_put]
      cases hfound : e.table? other with
      | none => rfl
      | some u =>
        rw [Option.map_some, (mem_of_table? hfound).2, if_neg (Ne.symm hs)]
    rw [get, get, tableOf, tableOf, table, table, hsame]

theorem function?_putFunction (larger : FunctionTable) :
    (e.putFunction larger).function? other =
      (e.function? other).map fun u => if u.signature = larger.signature then larger else u := by
  unfold function? putFunction
  rw [List.find?_map]
  congr 2
  funext u
  show ((if u.signature = larger.signature then larger else u).signature == other) = _
  split_ifs with hu
  · rw [hu]
  · rfl

theorem function?_putFunction_of_ne {larger : FunctionTable} (hne : larger.signature ≠ other) :
    (e.putFunction larger).function? other = e.function? other := by
  rw [function?_putFunction]
  cases hfound : e.function? other with
  | none => rfl
  | some u =>
    rw [Option.map_some, (mem_of_function? hfound).2, if_neg (Ne.symm hne)]

/-! ### Stores of a layout -/

/-- Whether a store has the blocks and the functions of a layout, assertions about atoms of the
right block only, and values of functions within their domains. -/
structure IsStoreOf (e : Evidence) (l : Layout) : Prop where
  layout_eq : e.layout = l
  blocks_eq : e.tables.map FactTable.block = l.blocks
  explicit_mem : ∀ t ∈ e.tables, ∀ id ∈ t.explicit, t.block.contains id.number = true
  decls_eq : e.functions.map FunctionTable.decl = l.schema.functions
  isOver : ∀ t ∈ e.functions, t.IsOver l.domains

namespace IsStoreOf

theorem block_mem (h : e.IsStoreOf l) {t : FactTable} (ht : t ∈ e.tables) : t.block ∈ l.blocks := by
  rw [← h.blocks_eq]
  exact List.mem_map_of_mem ht

theorem decl_mem (h : e.IsStoreOf l) {t : FunctionTable} (ht : t ∈ e.functions) :
    t.decl ∈ l.schema.functions := by
  rw [← h.decls_eq]
  exact List.mem_map_of_mem ht

/-- The table of a signature is the only one that has it. -/
theorem table?_eq_some_iff (h : e.IsStoreOf l) (hl : l.IsDeclared) {t : FactTable} :
    e.table? s = some t ↔ t ∈ e.tables ∧ t.block.signature = s := by
  have hnodup := hl.nodup_blocks
  rw [← h.blocks_eq, List.map_map] at hnodup
  constructor
  · exact mem_of_table?
  · rintro ⟨ht, rfl⟩
    show e.tables.find? (fun u => u.block.signature == t.block.signature) = some t
    exact find?_key_eq_some hnodup ht

/-- The atoms of a store are those of the blocks. -/
theorem exists_tableOf_iff (h : e.IsStoreOf l) (hl : l.IsDeclared) :
    (∃ t, e.tableOf s id = .ok t) ↔
      ∃ b ∈ l.blocks, b.signature = s ∧ b.contains id.number = true := by
  simp only [tableOf_eq_ok_iff, h.table?_eq_some_iff hl, ← h.blocks_eq, List.mem_map,
    exists_exists_and_eq_and, and_assoc]

theorem put (h : e.IsStoreOf l) (hl : l.IsDeclared) (hid : ∃ t, e.tableOf s id = .ok t) :
    (e.put s id v).IsStoreOf l := by
  obtain ⟨t, ht⟩ := hid
  obtain ⟨htable, hcontains⟩ := tableOf_eq_ok_iff.mp ht
  refine ⟨h.layout_eq, ?_, ?_, h.decls_eq, h.isOver⟩
  · rw [← h.blocks_eq]
    show (e.tables.map _).map FactTable.block = _
    rw [List.map_map]
    refine List.map_congr_left fun u _ => ?_
    show (if u.block.signature = s then u.set id v else u).block = u.block
    split_ifs <;> rfl
  · intro written hwritten other hother
    obtain ⟨u, hu, rfl⟩ := List.mem_map.mp hwritten
    split_ifs at hother ⊢ with hsignature
    · -- the table that is written is the one that the id was checked against
      have hsame := (h.table?_eq_some_iff hl).mpr ⟨hu, hsignature⟩
      rw [htable] at hsame
      cases hsame
      rcases Std.TreeMap.mem_insert.mp hother with heq | hother
      · rw [← Std.LawfulEqCmp.eq_of_compare heq]
        exact hcontains
      · exact h.explicit_mem t hu other hother
    · exact h.explicit_mem u hu other hother

/-- A table with more values may take the place of the one of its function. -/
theorem putFunction (h : e.IsStoreOf l) (hl : l.IsDeclared) {larger t : FunctionTable}
    (ht : t ∈ e.functions) (hdecl : larger.decl = t.decl) (hlarger : larger.IsOver l.domains) :
    (e.putFunction larger).IsStoreOf l := by
  refine ⟨h.layout_eq, h.blocks_eq, h.explicit_mem, ?_, ?_⟩
  · have hnodup := hl.nodup_functions
    rw [← h.decls_eq, List.map_map] at hnodup
    rw [← h.decls_eq]
    show (e.functions.map _).map FunctionTable.decl = _
    rw [List.map_map]
    refine List.map_congr_left fun u hu => ?_
    show (if u.signature = larger.signature then larger else u).decl = u.decl
    split_ifs with hsignature
    · -- only one table has the signature
      have hsame : u.signature = t.signature := by
        rw [hsignature, FunctionTable.signature, hdecl, FunctionTable.signature]
      have hfirst : e.functions.find? (fun v => v.signature == u.signature) = some u :=
        find?_key_eq_some hnodup hu
      have hsecond : e.functions.find? (fun v => v.signature == t.signature) = some t :=
        find?_key_eq_some hnodup ht
      rw [hsame, hsecond] at hfirst
      rw [← Option.some.inj hfirst, hdecl]
    · rfl
  · intro written hwritten
    obtain ⟨u, hu, rfl⟩ := List.mem_map.mp hwritten
    split_ifs
    · exact hlarger
    · exact h.isOver u hu

end IsStoreOf

end Evidence

end LogicNetwork
