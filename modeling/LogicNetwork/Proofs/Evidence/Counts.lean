import LogicNetwork.Proofs.Evidence.History
import LogicNetwork.Proofs.Evidence.Views
import LogicNetwork.Proofs.Lists

/-!
# Counting what a store says

A table keeps its assertions only.  How many atoms are true, false and unknown, and which ones are
unknown, it derives from them: the atoms that nothing is asserted of are the rest of the block
(`FactTable.length_unassertedIds`), and they count for the default of the table
(`FactTable.length_filter_get`).

This agrees with looking at every atom of the block, because what is asserted lies in the block
(`Evidence.IsStoreOf.explicit_mem`), through every history of a store: `Evidence.views_agree`.
-/

namespace LogicNetwork

/-! ### Ids of a block -/

namespace Block

theorem pairwise_ids (b : Block) : b.ids.Pairwise fun x y => x.number < y.number := by
  rw [ids, List.pairwise_filterMap]
  refine List.Pairwise.imp (fun {m n} hlt x hx y hy => ?_) List.pairwise_lt_range'
  rw [AtomId.number_of_ofNat? hx, AtomId.number_of_ofNat? hy]
  exact hlt

/-- In a block that ends at `2 ^ 31` at the latest, every place is an id of an atom. -/
theorem length_ids {b : Block} (h : b.IsPositional) (hfirst : 1 ≤ b.first.toNat)
    (hstop : b.stop.toNat ≤ 2147483648) : b.ids.length = b.size.toNat := by
  have hnumbers : b.ids.map AtomId.number =
      List.range' b.first.toNat (b.stop.toNat - b.first.toNat) := by
    rw [ids, List.map_filterMap]
    refine (List.filterMap_congr fun number hnumber => ?_).trans List.filterMap_some
    rw [List.mem_range'_1] at hnumber
    rw [AtomId.ofNat?, dif_pos (by omega), Option.map_some]
  have hlength := congrArg List.length hnumbers
  rw [List.length_map, List.length_range', h.toNat_stop, ← h.toNat_size] at hlength
  omega

end Block

/-! ### Counts of a table -/

namespace FactTable

variable {t : FactTable} {v : TruthValue}

theorem pairwise_idsWith : (t.idsWith v).Pairwise fun x y => x.number < y.number := by
  rw [idsWith, List.pairwise_map]
  have hentries : t.explicit.toList.Pairwise fun x y => compare x.1 y.1 = .lt :=
    Std.TreeMap.ordered_keys_toList
  exact (hentries.imp fun hlt => Nat.compare_eq_lt.mp hlt).filter _

theorem length_idsWith_add :
    (t.idsWith .true).length + (t.idsWith .false).length + (t.idsWith .unknown).length =
      t.explicit.size := by
  rw [← Std.TreeMap.length_toList]
  simp only [idsWith, List.length_map]
  induction t.explicit.toList with
  | nil => rfl
  | cons entry entries ih =>
    obtain ⟨id, v⟩ := entry
    cases v <;> simp only [List.filter_cons, beq_self_eq_true, reduceCtorEq, beq_iff_eq, if_true,
      if_false, List.length_cons] <;> omega

/-- The atoms of a block of which nothing is asserted. -/
def unassertedIds (t : FactTable) : List AtomId :=
  t.block.ids.filter fun id => t.explicit[id]? == none

/-- Every atom has exactly one truth value. -/
theorem length_filter_get_add (t : FactTable) (ids : List AtomId) :
    (ids.filter fun id => t.get id == .true).length +
      (ids.filter fun id => t.get id == .false).length +
      (ids.filter fun id => t.get id == .unknown).length = ids.length := by
  induction ids with
  | nil => rfl
  | cons id ids ih => cases hid : t.get id <;> simp [hid] at ih ⊢ <;> omega

variable (h : ∀ id ∈ t.explicit, t.block.contains id.number = true)

include h

/-- What is asserted can be found by going through the block. -/
theorem idsWith_eq_filter :
    t.idsWith v = t.block.ids.filter fun id => t.explicit[id]? == some v := by
  refine eq_of_pairwise_of_mem_iff (r := fun x y => x.number < y.number)
    (fun id => Nat.lt_irrefl id.number) Nat.lt_trans pairwise_idsWith
    (t.block.pairwise_ids.filter _) fun id => ?_
  rw [mem_idsWith, List.mem_filter, Block.mem_ids, beq_iff_eq]
  refine ⟨fun hid => ⟨h id ?_, hid⟩, And.right⟩
  rw [Std.TreeMap.mem_iff_isSome_getElem?, hid, Option.isSome_some]

/-- The unknown atoms of a table are found by going through its block, whatever its default. -/
theorem unknownIds_eq_filter :
    t.unknownIds = t.block.ids.filter fun id => t.get id == .unknown := by
  rw [unknownIds]
  split_ifs with hclosed
  · rw [idsWith_eq_filter h]
    refine List.filter_congr fun id _ => ?_
    rw [get_eq, default, if_pos hclosed]
    cases t.explicit[id]? <;> rfl
  · rfl

theorem length_unassertedIds :
    t.unassertedIds.length + t.explicit.size = t.block.ids.length := by
  rw [← length_idsWith_add, idsWith_eq_filter h, idsWith_eq_filter h, idsWith_eq_filter h,
    unassertedIds]
  induction t.block.ids with
  | nil => rfl
  | cons id ids ih =>
    cases hid : t.explicit[id]? with
    | none => simp [hid] at ih ⊢; omega
    | some v => cases v <;> simp [hid] at ih ⊢ <;> omega

/-- An atom has a truth value because it is asserted to, or as the default of the table. -/
theorem length_filter_get (v : TruthValue) :
    (t.block.ids.filter fun id => t.get id == v).length =
      (t.idsWith v).length + if t.default = v then t.unassertedIds.length else 0 := by
  rw [idsWith_eq_filter h, unassertedIds]
  simp only [get_eq]
  induction t.block.ids with
  | nil => simp
  | cons id ids ih =>
    cases hid : t.explicit[id]? with
    | none => by_cases hdefault : t.default = v <;> simp [hid, hdefault] at ih ⊢ <;> omega
    | some w => by_cases hw : w = v <;> simp [hid, hw] at ih ⊢ <;> omega

/-- What a table counts are the atoms of its block. -/
theorem counts_eq (hsize : t.block.ids.length = t.block.size.toNat) :
    t.counts = ((t.block.ids.filter fun id => t.get id == .true).length,
      (t.block.ids.filter fun id => t.get id == .false).length,
      (t.block.ids.filter fun id => t.get id == .unknown).length) := by
  have hrest : t.block.size.toNat - t.explicit.size = t.unassertedIds.length := by
    have hadd := length_unassertedIds h
    omega
  rw [length_filter_get h, length_filter_get h, length_filter_get h, counts, hrest, default]
  cases t.closed <;> simp

end FactTable

/-! ### Views of a store -/

namespace Evidence

variable {e : Evidence} {l : Layout} {t : FactTable} {id : AtomId} {v : TruthValue}

/-- The atoms of a block to which a store gives a truth value, one by one. -/
def atomsWith (e : Evidence) (b : Block) (v : TruthValue) : List AtomId :=
  b.ids.filter fun id => (e.get b.signature id).toOption == some v

/-- Whether what a table derives from its assertions is what the store says about the atoms of its
block, and every place of the block is an atom, which can be looked up without its signature. -/
structure AgreesOn (e : Evidence) (t : FactTable) : Prop where
  length_ids : t.block.ids.length = t.block.size.toNat
  exists_get : ∀ id ∈ t.block.ids, ∃ v, e.get t.block.signature id = .ok v ∧ e.state id = .ok v
  counts_eq : t.counts = ((e.atomsWith t.block .true).length,
    (e.atomsWith t.block .false).length, (e.atomsWith t.block .unknown).length)
  /-- Nothing is subtracted from less. -/
  size_le : t.explicit.size ≤ t.block.size.toNat
  counts_add : t.counts.1 + t.counts.2.1 + t.counts.2.2 = t.block.size.toNat
  unknownIds_eq : t.unknownIds = e.atomsWith t.block .unknown
  mem_unknownIds : ∀ id, id ∈ t.unknownIds ↔ e.get t.block.signature id = .ok .unknown
  pairwise_unknownIds : t.unknownIds.Pairwise fun x y => x.number < y.number

namespace IsStoreOf

theorem atomsWith_eq (h : e.IsStoreOf l) (hl : l.IsDeclared) (ht : t ∈ e.tables)
    (v : TruthValue) : e.atomsWith t.block v = t.block.ids.filter fun id => t.get id == v := by
  refine List.filter_congr fun id hid => ?_
  rw [h.get_eq_ok_of_mem hl ht (Block.mem_ids.mp hid)]
  rfl

theorem agreesOn (h : e.IsStoreOf l) (hl : l.IsComplete) (ht : t ∈ e.tables) : e.AgreesOn t := by
  have hdeclared := hl.toIsDeclared
  have hb := h.block_mem ht
  have hexplicit := h.explicit_mem t ht
  have hpositional := hl.positional t.block hb
  have hsize := Block.length_ids hpositional ((hl.tiles.bounds hl.positional).2 t.block hb).1
    (hl.stop_le t.block hb)
  have hget {id : AtomId} (hid : id ∈ t.block.ids) :
      e.get t.block.signature id = .ok (t.get id) :=
    h.get_eq_ok_of_mem hdeclared ht (Block.mem_ids.mp hid)
  have hunknown : t.unknownIds = e.atomsWith t.block .unknown := by
    rw [FactTable.unknownIds_eq_filter hexplicit, h.atomsWith_eq hdeclared ht]
  have hcounts : t.counts = ((e.atomsWith t.block .true).length,
      (e.atomsWith t.block .false).length, (e.atomsWith t.block .unknown).length) := by
    rw [FactTable.counts_eq hexplicit hsize, h.atomsWith_eq hdeclared ht,
      h.atomsWith_eq hdeclared ht, h.atomsWith_eq hdeclared ht]
  refine ⟨hsize, fun id hid => ⟨t.get id, hget hid, h.state_eq hl.toIsLaidOut (hget hid)⟩, hcounts,
    ?_, ?_, hunknown, fun id => ?_, ?_⟩
  · have hadd := FactTable.length_unassertedIds hexplicit
    omega
  · rw [FactTable.counts_eq hexplicit hsize, ← hsize]
    exact t.length_filter_get_add t.block.ids
  · rw [← h.mem_unknownIds_iff, (h.table?_eq_some_iff hdeclared).mpr ⟨ht, rfl⟩]
    rfl
  · rw [hunknown]
    exact t.block.pairwise_ids.filter _

end IsStoreOf

/-- What a store counts and lists as unknown is what it says atom by atom, for every signature of
its layout and after every history of the store, and no atom of the layout is without truth
value. -/
theorem views_agree {schema : Schema} {domains : Domains} {a : Assumptions} {facts : List Fact}
    {values : List FunctionValue} (hl : Layout.build schema domains = .ok l)
    (hstop : ∀ b ∈ l.blocks, b.stop.toNat ≤ 2147483648)
    (he : build l a facts values = .ok e) (calls : List Call) :
    (∀ b ∈ l.blocks, ∃ t, (e.after calls).table b.signature = .ok t ∧ t.block = b ∧
        (e.after calls).AgreesOn t) ∧
      (∀ s t, (e.after calls).table s = .ok t → t.block ∈ l.blocks ∧ t.block.signature = s) ∧
      ∀ id : AtomId, id.number ≤ l.atomCount → ∃ v, (e.after calls).state id = .ok v := by
  have hcomplete := Layout.isComplete_of_build hl hstop
  have hstore := isStoreOf_after_build hcomplete.toIsDeclared he calls
  have hblock : ∀ b ∈ l.blocks, ∃ t, (e.after calls).table b.signature = .ok t ∧ t.block = b ∧
      (e.after calls).AgreesOn t := by
    intro b hb
    rw [← hstore.blocks_eq] at hb
    obtain ⟨t, ht, rfl⟩ := List.mem_map.mp hb
    have htable := (hstore.table?_eq_some_iff hcomplete.toIsDeclared).mpr ⟨ht, rfl⟩
    exact ⟨t, table_eq_ok_iff.mpr htable, rfl, hstore.agreesOn hcomplete ht⟩
  refine ⟨hblock, fun s t ht => ?_, fun id hid => ?_⟩
  · obtain ⟨hmem, hsignature⟩ := mem_of_table? (table_eq_ok_iff.mp ht)
    exact ⟨hstore.block_mem hmem, hsignature⟩
  · -- the blocks leave no gap
    have hcount := hcomplete.atomCount_eq
    obtain ⟨b, hb, hcontains⟩ := hcomplete.tiles.exists_contains hcomplete.positional id.pos
      (by omega)
    obtain ⟨t, -, rfl, hagrees⟩ := hblock b hb
    obtain ⟨v, -, hstate⟩ := hagrees.exists_get id (Block.mem_ids.mpr hcontains)
    exact ⟨v, hstate⟩

end Evidence

theorem Layout.Calendar.views_agree_calendar : build schema domains = .ok layout ∧
    (∀ b ∈ layout.blocks, b.stop.toNat ≤ 2147483648) ∧
    Evidence.build layout assumptions facts values = .ok evidence ∧
    (∀ b ∈ layout.blocks, ∃ t, (evidence.after calls).table b.signature = .ok t ∧ t.block = b ∧
        (evidence.after calls).AgreesOn t) ∧
      (∀ s t, (evidence.after calls).table s = .ok t →
        t.block ∈ layout.blocks ∧ t.block.signature = s) ∧
      ∀ id : AtomId, id.number ≤ layout.atomCount →
        ∃ v, (evidence.after calls).state id = .ok v :=
  ⟨build_eq, stop_le, build_evidence, Evidence.views_agree build_eq stop_le build_evidence calls⟩

end LogicNetwork
