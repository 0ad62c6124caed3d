import LogicNetwork.Proofs.Evidence.Writes

/-!
# Views of a store

What a store says about an atom can be read in several ways, which agree.  The unknown atoms that a
table lists are the atoms of its block that the store calls unknown
(`Evidence.IsStoreOf.mem_unknownIds_iff`), and where blocks lie end to end, an atom can be looked up
without its signature (`Evidence.IsStoreOf.state_eq`).
-/

namespace LogicNetwork

theorem Block.mem_ids {b : Block} {id : AtomId} :
    id ∈ b.ids ↔ b.contains id.number = true := by
  rw [ids, List.mem_filterMap, contains, Bool.and_eq_true, decide_eq_true_iff, decide_eq_true_iff]
  constructor
  · rintro ⟨number, hnumber, hid⟩
    rw [List.mem_range'_1] at hnumber
    rw [AtomId.number_of_ofNat? hid]
    omega
  · intro hrange
    refine ⟨id.number, ?_, AtomId.ofNat?_number id⟩
    rw [List.mem_range'_1]
    omega

namespace FactTable

variable {t : FactTable} {id : AtomId} {v : TruthValue}

theorem mem_idsWith : id ∈ t.idsWith v ↔ t.explicit[id]? = some v := by
  simp only [idsWith, List.mem_map, List.mem_filter, Prod.exists, beq_iff_eq,
    Std.TreeMap.mem_toList_iff_getElem?_eq_some]
  constructor
  · rintro ⟨id, v, ⟨hid, rfl⟩, rfl⟩
    exact hid
  · intro hid
    exact ⟨id, v, ⟨hid, rfl⟩, rfl⟩

theorem get_eq (t : FactTable) (id : AtomId) : t.get id = t.explicit[id]?.getD t.default :=
  Std.TreeMap.getD_eq_getD_getElem?

/-- The unknown atoms of a table are those of its block that it says to be unknown. -/
theorem mem_unknownIds_iff (h : ∀ id ∈ t.explicit, t.block.contains id.number = true) :
    id ∈ t.unknownIds ↔ t.block.contains id.number = true ∧ t.get id = .unknown := by
  rw [unknownIds]
  split_ifs with hclosed
  · -- in a closed world only what is asserted can be unknown
    rw [mem_idsWith, get_eq, default, if_pos hclosed]
    constructor
    · intro hid
      refine ⟨h id ?_, by rw [hid, Option.getD_some]⟩
      rw [Std.TreeMap.mem_iff_isSome_getElem?, hid, Option.isSome_some]
    · rintro ⟨-, hid⟩
      cases hexplicit : t.explicit[id]? with
      | none =>
        rw [hexplicit] at hid
        cases hid
      | some v =>
        rw [hexplicit, Option.getD_some] at hid
        rw [hid]
  · rw [List.mem_filter, Block.mem_ids, beq_iff_eq]

end FactTable

namespace Evidence.IsStoreOf

variable {e : Evidence} {l : Layout} {s : Signature} {id : AtomId} {v : TruthValue}

/-- The unknown atoms that are listed for a signature are those that the store calls unknown. -/
theorem mem_unknownIds_iff (h : e.IsStoreOf l) :
    id ∈ ((e.table? s).map FactTable.unknownIds).getD [] ↔ e.get s id = .ok .unknown := by
  rw [get_eq_ok_iff]
  cases htable : e.table? s with
  | none => simp
  | some t =>
    have hexplicit := h.explicit_mem t (mem_of_table? htable).1
    rw [Option.map_some, Option.getD_some, FactTable.mem_unknownIds_iff hexplicit]
    simp

/-- What a table says about an atom of its block, the store says as well. -/
theorem get_eq_ok_of_mem (h : e.IsStoreOf l) (hl : l.IsDeclared) {t : FactTable}
    (ht : t ∈ e.tables) (hid : t.block.contains id.number = true) :
    e.get t.block.signature id = .ok (t.get id) :=
  get_eq_ok_iff.mpr ⟨t, (h.table?_eq_some_iff hl).mpr ⟨ht, rfl⟩, hid, rfl⟩

/-- Where blocks lie end to end, an atom is found without its signature. -/
theorem state_eq (h : e.IsStoreOf l) (hl : l.IsLaidOut) (hget : e.get s id = .ok v) :
    e.state id = .ok v := by
  obtain ⟨t, htable, hcontains, hv⟩ := get_eq_ok_iff.mp hget
  have ht := (mem_of_table? htable).1
  have hfind := hl.tiles.find?_eq_some hl.positional (h.block_mem ht) hcontains
  rw [← h.blocks_eq, List.find?_map, Option.map_eq_some_iff] at hfind
  obtain ⟨u, hu, hblock⟩ := hfind
  -- the table that is found has the same block, and no other table has
  have hnodup : (e.tables.map fun t => t.block.signature).Nodup := by
    have hsignatures := hl.nodup
    rw [← h.blocks_eq, List.map_map] at hsignatures
    exact hsignatures
  have hsame : u = t :=
    List.inj_on_of_nodup_map hnodup (List.mem_of_find?_eq_some hu) ht
      (congrArg Block.signature hblock)
  rw [hsame] at hu
  rw [state]
  have hfound : e.tables.find? (fun t => id.number < t.block.stop.toNat) = some t := hu
  rw [hfound]
  dsimp only
  rw [if_pos hcontains, hv]

end Evidence.IsStoreOf

end LogicNetwork
